import Eva01.Timer.Calls

/-!
`Timer::cancel` as the last word on a timer (`cancel_final`).

A `cancel` that finds its timer in the set takes it out, and nothing puts it back: a later `refresh`
does not find it and returns `false`. A `cancel` that falls between the two sections of a `refresh`
on the same timer finds nothing either, but the `refresh` then puts the timer back. So the result
needs that no `cancel` is made there (`Undisturbed`), and `cancel_lost` is a run in which one is.
-/

namespace Eva01.TimerManager

open Lib Lib.Runs

variable {γ : Type*} {addr : ℕ → ℕ} {m : TimerManager γ} {s s' : Threads γ} {a : Act γ} {i j : ℕ}

/-! ### The law -/

/-- There is a reason why the timer `i` is not in the set: it was cancelled, or it fires once and was
collected. -/
def Spent (recurs : ℕ → Bool) (log : List Record) (i : ℕ) : Prop :=
  .cancel i true ∈ log ∨ ((∃ now, .collect i now ∈ log) ∧ recurs i = false)

lemma Spent.append {recurs : ℕ → Bool} {log : List Record} (h : Spent recurs log i)
    (ext : List Record) : Spent recurs (log ++ ext) i := by
  rcases h with h | ⟨⟨now, h⟩, hrec⟩
  · exact .inl (List.mem_append_left _ h)
  · exact .inr ⟨⟨now, List.mem_append_left _ h⟩, hrec⟩

lemma Spent.congr {recurs recurs' : ℕ → Bool} {log : List Record} (h : Spent recurs log i)
    (hrec : recurs' i = recurs i) : Spent recurs' log i :=
  h.imp_right fun ⟨hnow, hi⟩ => ⟨hnow, hrec.trans hi⟩

/-- What may be remembered after `before`. No timer on which `cancel` was called is rearmed or
collected, and a `cancel` returns `false` only on a timer that is spent. -/
def Lawful (recurs : ℕ → Bool) (before : List Record) : Record → Prop
  | .cancel _ true | .refresh _ false => True
  | .cancel i false => Spent recurs before i
  | .refresh i true | .collect i _ => ∀ b, .cancel i b ∉ before

/-- No `cancel` between the two sections of a `refresh` on its timer. -/
def Undisturbed (s : Threads γ) : Act γ → Prop
  | .cancel i => .reinsert i ∉ s.calls
  | _ => True

/-! ### Objects through a step -/

lemma rearms_fresh (l : List ℕ) : (l.foldl (rearm addr) m).fresh = m.fresh := by
  induction l generalizing m with
  | nil => rfl
  | cons i is ih =>
      rw [List.foldl_cons, ih]
      unfold rearm
      split
      · rfl
      · split <;> rfl

lemma getExpiredFuncs_fresh (now : ℕ) : (m.getExpiredFuncs addr now).1.fresh = m.fresh :=
  rearms_fresh _

lemma addTimerPtr_fresh : (m.addTimerPtr addr i).1.fresh = m.fresh := by
  unfold addTimerPtr
  split <;> rfl

lemma mem_addTimerPtr (hinj : Function.Injective addr) (hi : (m.obj i).isSome) :
    j ∈ (m.addTimerPtr addr i).1.timers ↔ j = i ∨ j ∈ m.timers := by
  unfold addTimerPtr
  split
  · simp_all
  · exact OrderedSet.mem_insert (trichotomous_cmp hinj _)

lemma mem_addTimerPtr_of_mem (h : j ∈ m.timers) : j ∈ (m.addTimerPtr addr i).1.timers := by
  unfold addTimerPtr
  split
  · exact h
  · exact OrderedSet.mem_insert_of_mem h

lemma eq_or_mem_of_mem_addTimerPtr (h : j ∈ (m.addTimerPtr addr i).1.timers) :
    j = i ∨ j ∈ m.timers := by
  unfold addTimerPtr at h
  split at h
  · exact .inr h
  · exact OrderedSet.eq_or_mem_of_mem_insert h

/-- The objects there are stay, and keep what no operation writes. -/
structure Kept (m m' : TimerManager γ) : Prop where
  fresh_le : m.fresh ≤ m'.fresh
  same : ∀ i < m.fresh, SameObject m m' i

theorem Stepped.kept (hs : Stepped addr s a s') : Kept s.mgr s'.mgr := by
  cases hs with
  | addTimer =>
      exact ⟨Nat.le_succ _, fun i hi => .of_obj (Function.update_of_ne hi.ne _ _)⟩
  | cancel | refreshFails | getExpiredFuncs | look | lookEmpty =>
      exact ⟨le_rfl, fun i _ => .of_obj rfl⟩
  | @refresh i now =>
      refine ⟨le_rfl, fun j _ => ?_⟩
      have hcancel : SameObject s.mgr (s.mgr.cancel addr i) j := .of_obj rfl
      exact hcancel.trans (sameObject_setNext _)
  | insert => exact ⟨addTimerPtr_fresh.ge, fun j _ => .of_obj (by rw [addTimerPtr_obj])⟩
  | collect =>
      exact ⟨(getExpiredFuncs_fresh _).ge, fun j _ => sameObject_getExpiredFuncs _ _ _ _⟩

lemma isSome_rearms (l : List ℕ) : ((l.foldl (rearm addr) m).obj j).isSome = (m.obj j).isSome := by
  have hkind := congrArg Option.isSome (rearms_kind (m := m) addr l j)
  simpa [kind] using hkind

theorem Stepped.made (hs : Stepped addr s a s') (h : ∀ i < s.mgr.fresh, (s.mgr.obj i).isSome) :
    ∀ i < s'.mgr.fresh, (s'.mgr.obj i).isSome := by
  cases hs with
  | addTimer =>
      intro i hi
      by_cases hf : i = s.mgr.fresh
      · simp [make, hf]
      · simpa [make, Function.update_of_ne hf] using h i (by simp only [make] at hi; omega)
  | cancel | refreshFails | getExpiredFuncs | look | lookEmpty => exact h
  | @refresh i now =>
      intro j hj
      by_cases hji : j = i
      · subst hji
        simpa [setNext, TimerManager.cancel] using h j hj
      · simpa [setNext, TimerManager.cancel, Function.update_of_ne hji] using h j hj
  | insert =>
      intro j hj
      rw [addTimerPtr_obj]
      exact h j (by rwa [addTimerPtr_fresh] at hj)
  | collect =>
      intro j hj
      rw [getExpiredFuncs_fresh] at hj
      simp only [TimerManager.getExpiredFuncs, isSome_rearms]
      exact h j hj

/-! ### Into the set and out of it -/

/-- The call is about to put the timer `i` into the set. -/
def Call.Inserts (i : ℕ) (c : Call) : Prop := c = .insert i ∨ c = .reinsert i

lemma Call.Inserts.unique {c : Call} (hi : c.Inserts i) (hj : c.Inserts j) : i = j := by
  rcases hi with rfl | rfl <;> rcases hj with hj | hj <;> cases hj <;> rfl

lemma Call.Inserts.ne {c : Call} (hi : c.Inserts i) (now : ℕ) : c ≠ .look now ∧ c ≠ .collect now := by
  rcases hi with rfl | rfl <;> simp

lemma Threads.known_iff :
    s.known i = true ↔ i < s.mgr.fresh ∧ .insert i ∉ s.calls := by
  simp [Threads.known]

section Inversion

variable {c : Call}

/-- A call that is about to insert a timer was there before, or the timer is new, or it is one in the
set that is refreshed. -/
theorem Stepped.inserts (hs : Stepped addr s a s') (hc : c ∈ s'.calls) (hci : c.Inserts i) :
    c ∈ s.calls ∨ (i = s.mgr.fresh ∧ i < s'.mgr.fresh) ∨
      (s.known i = true ∧ s.mgr.cancelRet addr i = true) := by
  cases hs with
  | addTimer =>
      rcases List.mem_cons.1 hc with rfl | hc
      · rcases hci with hci | hci <;> cases hci
        exact .inr (.inl ⟨rfl, Nat.lt_succ_self _⟩)
      · exact .inl hc
  | refresh hk hf =>
      rcases List.mem_cons.1 hc with rfl | hc
      · rcases hci with hci | hci <;> cases hci
        exact .inr (.inr ⟨hk, hf⟩)
      · exact .inl hc
  | cancel | refreshFails => exact .inl hc
  | getExpiredFuncs => exact .inl (List.mem_of_ne_of_mem (hci.ne _).1 hc)
  | look => exact .inl (List.mem_of_mem_eraseIdx (List.mem_of_ne_of_mem (hci.ne _).2 hc))
  | insert | lookEmpty | collect => exact .inl (List.mem_of_mem_eraseIdx hc)

theorem Stepped.arrives (hinj : Function.Injective addr) (hs : Stepped addr s a s')
    (hi : (s.mgr.obj i).isSome) (hc : c ∈ s.calls) (hci : c.Inserts i) :
    c ∈ s'.calls ∨ i ∈ s'.mgr.timers := by
  cases hs with
  | addTimer | refresh | getExpiredFuncs => exact .inl (List.mem_cons_of_mem _ hc)
  | cancel | refreshFails => exact .inl hc
  | @insert k j d hd hdj =>
      by_cases hcd : c = d
      · subst hcd
        obtain rfl := hci.unique hdj
        exact .inr ((mem_addTimerPtr hinj hi).2 (.inl rfl))
      · exact .inl ((mem_eraseIdx hd hcd).2 hc)
  | look hd => exact .inl (List.mem_cons_of_mem _ ((mem_eraseIdx hd (hci.ne _).1).2 hc))
  | lookEmpty hd => exact .inl ((mem_eraseIdx hd (hci.ne _).1).2 hc)
  | collect hd => exact .inl ((mem_eraseIdx hd (hci.ne _).2).2 hc)

theorem Stepped.entered (hinj : Function.Injective addr) (hs : Stepped addr s a s')
    (h : i ∈ s'.mgr.timers) : i ∈ s.mgr.timers ∨ ∃ c ∈ s.calls, c.Inserts i := by
  cases hs with
  | addTimer | refreshFails | getExpiredFuncs | look | lookEmpty => exact .inl h
  | cancel | refresh => exact .inl (OrderedSet.erase_sublist.subset h)
  | @insert k j c hc hcj =>
      rcases eq_or_mem_of_mem_addTimerPtr h with rfl | h
      · exact .inr ⟨c, List.mem_of_getElem? hc, hcj⟩
      · exact .inl h
  | collect => exact .inl ((mem_getExpiredFuncs hinj).1 h).1

/-- A timer stays in the set, or is on its way back into it, or there is a reason why not. -/
theorem Stepped.left (hinj : Function.Injective addr) (ho : InOrder addr s.mgr)
    (hs : Stepped addr s a s') (hi : i ∈ s.mgr.timers) :
    i ∈ s'.mgr.timers ∨ .reinsert i ∈ s'.calls ∨ Spent s'.mgr.recurs s'.log i := by
  cases hs with
  | addTimer | refreshFails | getExpiredFuncs | look | lookEmpty => exact .inl hi
  | @cancel j hk =>
      by_cases hij : i = j
      · subst hij
        have hret : s.mgr.cancelRet addr i = true := (ho.cancelRet_iff hinj).2 hi
        exact .inr (.inr (.inl (by simp [hret])))
      · exact .inl ((ho.mem_cancel hinj).2 ⟨hi, hij⟩)
  | @refresh j now hk hf =>
      by_cases hij : i = j
      · exact .inr (.inl (by simp [hij]))
      · exact .inl ((ho.mem_cancel hinj).2 ⟨hi, hij⟩)
  | insert => exact .inl (mem_addTimerPtr_of_mem hi)
  | @collect k now hc =>
      by_cases hstay : now < s.mgr.nextOf i ∨ s.mgr.recurs i = true
      · exact .inl ((mem_getExpiredFuncs hinj).2 ⟨hi, hstay⟩)
      · have hdue : i ∈ s.mgr.expired now := mem_expired.2 ⟨hi, by omega⟩
        have hrec : (s.mgr.getExpiredFuncs addr now).1.recurs i = s.mgr.recurs i :=
          (sameObject_getExpiredFuncs _ _ _ _).recurs
        refine .inr (.inr (.inr ⟨⟨now, ?_⟩, by simpa [hrec] using (not_or.1 hstay).2⟩))
        exact List.mem_append_right _ (List.mem_map_of_mem hdue)

theorem Stepped.known (hinj : Function.Injective addr) (hs : Stepped addr s a s')
    (hmade : ∀ i < s.mgr.fresh, (s.mgr.obj i).isSome) (hk : s'.known i = true) :
    s.known i = true ∨ i ∈ s'.mgr.timers := by
  obtain ⟨hlt', hins'⟩ := Threads.known_iff.1 hk
  have hlt : i < s.mgr.fresh := by
    cases hs with
    | addTimer =>
        have hne : i ≠ s.mgr.fresh := by
          rintro rfl
          exact hins' List.mem_cons_self
        exact lt_of_le_of_ne (Nat.lt_succ_iff.1 hlt') hne
    | cancel | refresh | refreshFails | getExpiredFuncs | look | lookEmpty => exact hlt'
    | insert => rwa [addTimerPtr_fresh] at hlt'
    | collect => rwa [getExpiredFuncs_fresh] at hlt'
  by_cases hins : .insert i ∈ s.calls
  · exact .inr ((hs.arrives hinj (hmade i hlt) hins (.inl rfl)).resolve_left hins')
  · exact .inl (Threads.known_iff.2 ⟨hlt, hins⟩)

lemma Stepped.log_append (hs : Stepped addr s a s') : ∃ ext, s'.log = s.log ++ ext := by
  cases hs with
  | addTimer | getExpiredFuncs | insert | look | lookEmpty => exact ⟨[], (List.append_nil _).symm⟩
  | cancel | refresh | refreshFails | collect => exact ⟨_, rfl⟩

lemma Stepped.cancelled {b : Bool} (hs : Stepped addr s a s') (h : .cancel i b ∈ s'.log) :
    .cancel i b ∈ s.log ∨ a = .cancel i := by
  cases hs with
  | addTimer | getExpiredFuncs | insert | look | lookEmpty => exact .inl h
  | @cancel j hk =>
      rcases List.mem_append.1 h with h | h
      · exact .inl h
      · cases List.mem_singleton.1 h
        exact .inr rfl
  | refresh | refreshFails | collect => exact .inl (by simpa using h)

end Inversion

/-- What is about to be put into the set has been made. -/
def Queued (s : Threads γ) : Prop := ∀ c ∈ s.calls, ∀ i, c.Inserts i → i < s.mgr.fresh

theorem Queued.step (h : Queued s) (hs : Stepped addr s a s') : Queued s' := by
  intro c hc i hci
  have hle := hs.kept.fresh_le
  rcases hs.inserts hc hci with hold | ⟨-, hlt⟩ | ⟨hk, -⟩
  · exact lt_of_lt_of_le (h c hold i hci) hle
  · exact hlt
  · exact lt_of_lt_of_le (Threads.known_iff.1 hk).1 hle

theorem Queued.of_reach {G : Threads γ → Act γ → Prop} (h : Reach (Threads.step addr) G {} s) :
    Queued s :=
  h.inv (fun _ hc => absurd hc List.not_mem_nil) fun _ hx _ hs => hx.step (step_inv hs)

/-- The timer `i` is not in the set, and no call is about to put it there. -/
structure Gone (i : ℕ) (s : Threads γ) : Prop where
  made : i < s.mgr.fresh
  out : i ∉ s.mgr.timers
  idle : ∀ c ∈ s.calls, ¬c.Inserts i

theorem Gone.step (hinj : Function.Injective addr) (ho : InOrder addr s.mgr) (h : Gone i s)
    (hs : Stepped addr s a s') : Gone i s' where
  made := lt_of_lt_of_le h.made hs.kept.fresh_le
  out hi := by
    rcases hs.entered hinj hi with hin | ⟨c, hc, hci⟩
    · exact h.out hin
    · exact h.idle c hc hci
  idle c hc hci := by
    rcases hs.inserts hc hci with hold | ⟨rfl, -⟩ | ⟨-, hf⟩
    · exact h.idle c hold hci
    · exact lt_irrefl _ h.made
    · exact h.out ((ho.cancelRet_iff hinj).1 hf)

/-- A timer that is not on its way into the set has gone behind `cancel`. -/
lemma Gone.cancel (hinj : Function.Injective addr) (ho : InOrder addr s.mgr) (hlt : i < s.mgr.fresh)
    (hidle : ∀ c ∈ s.calls, ¬c.Inserts i) (hs : Stepped addr s (.cancel i) s') : Gone i s' := by
  cases hs with
  | cancel hk => exact ⟨hlt, ho.not_mem_cancel hinj, hidle⟩

/-! ### The invariant -/

/-- Where every timer is. -/
structure Settled (s : Threads γ) : Prop where
  made : ∀ i < s.mgr.fresh, (s.mgr.obj i).isSome
  /-- A timer about to be put into the set has been made. -/
  pending : ∀ c ∈ s.calls, ∀ i, c.Inserts i → i < s.mgr.fresh
  /-- A timer that threads have is in the set or on its way back, or there is a reason why not. -/
  present : ∀ i, s.known i = true →
    i ∈ s.mgr.timers ∨ .reinsert i ∈ s.calls ∨ Spent s.mgr.recurs s.log i
  /-- A timer on which `cancel` was called is not in the set, nor on its way into it. -/
  gone : ∀ i b, .cancel i b ∈ s.log →
    i < s.mgr.fresh ∧ i ∉ s.mgr.timers ∧ ∀ c ∈ s.calls, ¬c.Inserts i
  lawful : Justified (Lawful s.mgr.recurs) s.log

lemma Settled.lawful_kept (h : Settled s) {m : TimerManager γ} (hm : Kept s.mgr m) :
    Justified (Lawful m.recurs) s.log := by
  refine h.lawful.imp fun before r hr hlaw => ?_
  match r, hr, hlaw with
  | .cancel _ true, _, _ | .refresh _ false, _, _ => trivial
  | .refresh _ true, _, hlaw | .collect _ _, _, hlaw => exact hlaw
  | .cancel i false, hr, hlaw => exact hlaw.congr (hm.same i (h.gone i false hr).1).recurs

section Step

variable (hinj : Function.Injective addr) (ho : InOrder addr s.mgr) (h : Settled s)
  (hs : Stepped addr s a s')

include hinj ho h hs

lemma Settled.present_step (hk : s'.known i = true) :
    i ∈ s'.mgr.timers ∨ .reinsert i ∈ s'.calls ∨ Spent s'.mgr.recurs s'.log i := by
  rcases hs.known hinj h.made hk with hknown | hin
  · have hlt := (Threads.known_iff.1 hknown).1
    rcases h.present i hknown with hin | hback | hsp
    · exact hs.left hinj ho hin
    · rcases hs.arrives hinj (h.made i hlt) hback (.inr rfl) with hback | hin
      · exact .inr (.inl hback)
      · exact .inl hin
    · obtain ⟨ext, hlog⟩ := hs.log_append
      rw [hlog]
      exact .inr (.inr ((hsp.append ext).congr (hs.kept.same i hlt).recurs))
  · exact .inl hin

variable (hg : Undisturbed s a)

include hg

lemma Settled.gone_step {b : Bool} (hlog : .cancel i b ∈ s'.log) : Gone i s' := by
  rcases hs.cancelled hlog with hold | rfl
  · obtain ⟨hlt, hout, hidle⟩ := h.gone i b hold
    exact Gone.step hinj ho ⟨hlt, hout, hidle⟩ hs
  · have hk : s.known i = true := by
      cases hs
      assumption
    obtain ⟨hlt, hins⟩ := Threads.known_iff.1 hk
    refine Gone.cancel hinj ho hlt (fun c hc hci => ?_) hs
    rcases hci with rfl | rfl
    · exact hins hc
    · exact hg hc

lemma Settled.lawful_step : Justified (Lawful s'.mgr.recurs) s'.log := by
  have hlaw := h.lawful_kept hs.kept
  cases hs with
  | addTimer | getExpiredFuncs | insert | look | lookEmpty => exact hlaw
  | @cancel i hk =>
      refine hlaw.snoc ?_
      cases hret : s.mgr.cancelRet addr i with
      | true => trivial
      | false =>
          -- the timer is not in the set, and not on its way back into it
          have hout : i ∉ s.mgr.timers := fun hin => by
            simp [(ho.cancelRet_iff hinj).2 hin] at hret
          exact ((h.present i hk).resolve_left hout).resolve_left hg
  | @refresh i now hk hf =>
      exact hlaw.snoc fun b hlog => (h.gone i b hlog).2.1 ((ho.cancelRet_iff hinj).1 hf)
  | refreshFails => exact hlaw.snoc trivial
  | @collect k now hc =>
      refine hlaw.append fun mid r after heq => ?_
      have hr : r ∈ (s.mgr.expired now).map fun i => Record.collect i now := by simp [heq]
      obtain ⟨i, hi, rfl⟩ := List.mem_map.1 hr
      intro b hlog
      have hmem : .cancel i b ∈ s.log ++ (s.mgr.expired now).map fun i => .collect i now := by
        rw [heq, ← List.append_assoc]
        exact List.mem_append_left _ hlog
      have hold : .cancel i b ∈ s.log := by simpa using hmem
      exact (h.gone i b hold).2.1 (mem_expired.1 hi).1

end Step

/-! ### Whole runs -/

theorem Settled.step (hinj : Function.Injective addr) (ho : InOrder addr s.mgr) (h : Settled s)
    (hg : Undisturbed s a) (hs : Stepped addr s a s') : Settled s' where
  made := hs.made h.made
  pending := Queued.step h.pending hs
  present _ hk := h.present_step hinj ho hs hk
  gone _ _ hlog :=
    have hgone := h.gone_step hinj ho hs hg hlog
    ⟨hgone.made, hgone.out, hgone.idle⟩
  lawful := h.lawful_step hinj ho hs hg

lemma settled_start : Settled ({} : Threads γ) where
  made i hi := absurd hi (Nat.not_lt_zero i)
  pending _ hc := absurd hc List.not_mem_nil
  present i hk := absurd (Threads.known_iff.1 hk).1 (Nat.not_lt_zero i)
  gone _ _ hlog := absurd hlog List.not_mem_nil
  lawful := .nil

theorem Settled.of_reach (hinj : Function.Injective addr)
    (h : Reach (Threads.step addr) Undisturbed {} s) : Settled s :=
  h.inv settled_start fun hr hx hg hs => hx.step hinj (InOrder.of_reach hinj hr) hg (step_inv hs)

/-- **Cancellation is final**, in every run in which no `cancel` falls between the two sections of a
`refresh` on its timer. Behind a `cancel` that has returned, with either value, no `refresh` rearms
the timer and no `getExpiredFuncs` collects it; and `cancel` returns `false` only on a timer that
was cancelled before, or that fires once and was collected before. -/
theorem cancel_final (hinj : Function.Injective addr)
    (h : Reach (Threads.step addr) Undisturbed {} s) :
    (∀ i b before after, s.log = before ++ .cancel i b :: after →
      .refresh i true ∉ after ∧ ∀ now, .collect i now ∉ after) ∧
    (∀ i before after, s.log = before ++ .cancel i false :: after →
      .cancel i true ∈ before ∨
        ((∃ now, .collect i now ∈ before) ∧ s.mgr.recurs i = false)) := by
  have hx := Settled.of_reach hinj h
  have hlater : ∀ i b before after r, s.log = before ++ .cancel i b :: after → r ∈ after →
      ∃ earlier, .cancel i b ∈ earlier ∧ Lawful s.mgr.recurs earlier r := by
    intro i b before after r hlog hr
    obtain ⟨l₁, l₂, rfl⟩ := List.append_of_mem hr
    exact ⟨before ++ .cancel i b :: l₁, by simp, hx.lawful _ _ l₂ (by simp [hlog])⟩
  refine ⟨fun i b before after hlog => ⟨fun hr => ?_, fun now hr => ?_⟩, fun i before after hlog =>
    hx.lawful _ _ after hlog⟩
  · obtain ⟨earlier, hmem, hlaw⟩ := hlater i b before after _ hlog hr
    exact hlaw b hmem
  · obtain ⟨earlier, hmem, hlaw⟩ := hlater i b before after _ hlog hr
    exact hlaw b hmem

theorem cancel_final_fired :
    ∃ s : Threads ℕ, s.log = [.cancel 0 true, .collect 1 9, .cancel 1 false] ∧
      s.mgr.recurs 1 = false := by
  have h : (run (Threads.step id)
      (fun s a => match a with | .cancel i => !s.calls.contains (.reinsert i) | _ => true)
      ({} : Threads ℕ)
      [.addTimer 0 5 0 false, .next 0, .addTimer 0 7 1 false, .next 0, .cancel 0, .getExpiredFuncs 9,
        .next 0, .next 0, .cancel 1]).any
      (fun s => s.log == [.cancel 0 true, .collect 1 9, .cancel 1 false]) = true := by decide +kernel
  obtain ⟨s, hr, hs⟩ := exists_reach_of_run (G := Undisturbed) (fun s a hok => by
    cases a <;> simp_all [Undisturbed]) h
  have hlog : s.log = [.cancel 0 true, .collect 1 9, .cancel 1 false] := by simpa using hs
  obtain ⟨-, hfalse⟩ := cancel_final Function.injective_id hr
  refine ⟨s, hlog, ?_⟩
  rcases hfalse 1 [.cancel 0 true, .collect 1 9] [] hlog with hmem | ⟨-, hrec⟩
  · simp at hmem
  · exact hrec

/-- A `cancel` between the two sections of a `refresh`: it returns `false`, on a timer that has been
neither cancelled nor collected, and a `getExpiredFuncs` called afterwards collects the timer. -/
theorem cancel_lost :
    (run (Threads.step id) (fun _ _ => true) ({} : Threads ℕ)
      [.addTimer 0 5 0 false, .next 0, .refresh 0 1, .cancel 0, .next 0, .getExpiredFuncs 9, .next 0,
        .next 0]).map Threads.log =
      some [.refresh 0 true, .cancel 0 false, .collect 0 9] := by decide +kernel

end Eva01.TimerManager
