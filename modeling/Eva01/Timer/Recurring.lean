import Eva01.Timer.Cancel
import Eva01.Timer.Expire

/-!
A recurring timer that nobody cancels or refreshes keeps to its schedule (`recurring_on_time`).

Its deadline is moved on by one period from the old deadline, not from the clock, each time it is
collected; so after `k` collections it is the `k + 1`-st multiple of the period after the moment the
timer was added, whatever the readings were at which it was collected, and whatever happened to
other timers. A sweep that comes late finds it behind by several periods and collects it once;
polling again at the same reading catches up one period at a time, and stops at the number of whole
periods that have passed.
-/

namespace Eva01.TimerManager

open Lib Lib.Runs

variable {γ : Type*} {addr : ℕ → ℕ} {s s' s₀ s₁ : Threads γ} {a : Act γ} {T t₀ p now : ℕ}

/-- The timer `T` is neither cancelled nor refreshed, and when it is rearmed, the new deadline is at
most `2 ^ 64 - 1`. -/
def Alone (T : ℕ) (s : Threads γ) : Act γ → Prop
  | .cancel i | .refresh i _ => i ≠ T
  | .next k => ∀ now, s.calls[k]? = some (.collect now) → T ∈ s.mgr.expired now →
      s.mgr.nextOf T + s.mgr.periodOf T < 2 ^ 64
  | _ => True

/-! ### Collections -/

/-- The record is a collection of the timer `T`. -/
def Record.isCollect (T : ℕ) : Record → Bool
  | .collect i _ => i == T
  | _ => false

/-- How often the timer `T` has been collected. -/
def collected (T : ℕ) (log : List Record) : ℕ := log.countP (Record.isCollect T)

lemma collected_append {log ext : List Record} :
    collected T (log ++ ext) = collected T log + collected T ext := List.countP_append

lemma collected_sweep {l : List ℕ} : collected T (l.map fun i => .collect i now) = l.count T := by
  unfold collected
  rw [List.countP_map]
  rfl

lemma collected_eq_zero {log : List Record} (h : ∀ n, .collect T n ∉ log) :
    collected T log = 0 := by
  refine List.countP_eq_zero.2 fun r hr => ?_
  cases r with
  | cancel | refresh => simp [Record.isCollect]
  | collect i n =>
      have hne : i ≠ T := fun he => h n (he ▸ hr)
      simp [Record.isCollect, hne]

/-- A section that sweeps collects a timer once if it is due, and otherwise not. -/
lemma count_expired (hinj : Function.Injective addr) {m : TimerManager γ} (ho : InOrder addr m)
    (hT : T ∈ m.timers) : (m.expired now).count T = if m.nextOf T ≤ now then 1 else 0 := by
  split
  · exact List.count_eq_one_of_mem (ho.expired_nodup hinj now) (mem_expired.2 ⟨hT, ‹_›⟩)
  · exact List.count_eq_zero.2 fun hmem => ‹¬_› (mem_expired.1 hmem).2

/-- What has been collected is an object. -/
def Collects (s : Threads γ) : Prop := ∀ i n, .collect i n ∈ s.log → i < s.mgr.fresh

theorem Collects.step (h : Collects s) (hs : Stepped addr s a s') : Collects s' := by
  have hle := hs.kept.fresh_le
  intro i n hlog
  refine lt_of_lt_of_le ?_ hle
  cases hs with
  | addTimer | getExpiredFuncs | insert | look | lookEmpty => exact h i n hlog
  | cancel | refresh | refreshFails => exact h i n (by simpa using hlog)
  | @collect k now hc =>
      rcases List.mem_append.1 hlog with hlog | hlog
      · exact h i n hlog
      · obtain ⟨j, hj, heq⟩ := List.mem_map.1 hlog
        obtain ⟨rfl, -⟩ := Record.collect.inj heq
        obtain ⟨t, ht⟩ := Option.isSome_iff_exists.1 (s.mgr.made j (mem_expired.1 hj).1)
        exact s.mgr.below j t ht

theorem Collects.of_reach {G : Threads γ → Act γ → Prop} (h : Reach (Threads.step addr) G {} s) :
    Collects s :=
  h.inv (fun _ _ hlog => absurd hlog List.not_mem_nil) fun _ hx _ hs => hx.step (step_inv hs)

lemma Stepped.funcOf_eq {g : γ} (hs : Stepped addr s a s') (hT : s.mgr.funcOf T = some g) :
    s'.mgr.funcOf T = some g := by
  cases hs with
  | addTimer =>
      obtain ⟨t, ht, -⟩ := Option.map_eq_some_iff.1 hT
      have hne : T ≠ s.mgr.fresh := (s.mgr.below T t ht).ne
      simpa [funcOf, make, Function.update_of_ne hne] using hT
  | cancel | refreshFails | getExpiredFuncs | look | lookEmpty => exact hT
  | @refresh i now hk hf =>
      by_cases hi : T = i
      · subst hi
        simpa [funcOf, setNext, TimerManager.cancel, Function.comp_def] using hT
      · simpa [funcOf, setNext, TimerManager.cancel, Function.update_of_ne hi] using hT
  | insert =>
      unfold funcOf at hT ⊢
      rwa [addTimerPtr_obj]
  | @collect k now hc => exact (func_getExpiredFuncs addr now T).trans hT

/-! ### The schedule -/

/-- The timer `T`, added at `t₀` with the period `p`, is on its schedule. -/
structure Ticking (T t₀ p : ℕ) (s : Threads γ) : Prop where
  made : (s.mgr.obj T).isSome
  recurs : s.mgr.recurs T = true
  period : s.mgr.periodOf T = p
  next : s.mgr.nextOf T = t₀ + (collected T s.log + 1) * p
  bound : s.mgr.nextOf T < 2 ^ 64
  /-- The timer is in the set as soon as `addTimer` has put it there. -/
  here : .insert T ∉ s.calls → T ∈ s.mgr.timers
  /-- The last reading at which it was collected had come to the deadline it had then. -/
  last : collected T s.log = 0 ∨ ∃ n, .collect T n ∈ s.log ∧ t₀ + collected T s.log * p ≤ n

lemma Ticking.lt_fresh (h : Ticking T t₀ p s) : T < s.mgr.fresh := by
  obtain ⟨t, ht⟩ := Option.isSome_iff_exists.1 h.made
  exact s.mgr.below T t ht

lemma Ticking.congr (h : Ticking T t₀ p s) (hobj : s'.mgr.obj T = s.mgr.obj T)
    (hlog : collected T s'.log = collected T s.log)
    (hmem : ∀ n, .collect T n ∈ s.log → .collect T n ∈ s'.log)
    (hhere : .insert T ∉ s'.calls → T ∈ s'.mgr.timers) : Ticking T t₀ p s' := by
  have hsame : SameObject s.mgr s'.mgr T := .of_obj hobj
  have hnext : s'.mgr.nextOf T = s.mgr.nextOf T := by
    unfold nextOf
    rw [hobj]
  exact ⟨hobj ▸ h.made, hsame.recurs.trans h.recurs, hsame.period.trans h.period,
    by rw [hnext, hlog, h.next], hnext ▸ h.bound, hhere,
    by rw [hlog]; exact h.last.imp_right fun ⟨n, hn, hle⟩ => ⟨n, hmem n hn, hle⟩⟩

lemma Ticking.collect (hinj : Function.Injective addr) (ho : InOrder addr s.mgr)
    (h : Ticking T t₀ p s) (hfit : T ∈ s.mgr.expired now → s.mgr.nextOf T + p < 2 ^ 64)
    {calls : List Call} (hcalls : .insert T ∉ calls → .insert T ∉ s.calls) :
    Ticking T t₀ p { mgr := (s.mgr.getExpiredFuncs addr now).1, calls := calls
                     log := s.log ++ (s.mgr.expired now).map fun i => .collect i now } := by
  have hsame := sameObject_getExpiredFuncs addr s.mgr now T
  have hhere : .insert T ∉ calls → T ∈ (s.mgr.getExpiredFuncs addr now).1.timers := fun hins =>
    (mem_getExpiredFuncs hinj).2 ⟨h.here (hcalls hins), .inr h.recurs⟩
  have hmade : ((s.mgr.getExpiredFuncs addr now).1.obj T).isSome := by
    simp only [getExpiredFuncs, isSome_rearms]
    exact h.made
  by_cases hexp : T ∈ s.mgr.expired now
  · obtain ⟨hT, hdue⟩ := mem_expired.1 hexp
    have hlog : collected T (s.log ++ (s.mgr.expired now).map fun i => .collect i now) =
        collected T s.log + 1 := by
      rw [collected_append, collected_sweep, count_expired hinj ho hT, if_pos hdue]
    have hnext : (s.mgr.getExpiredFuncs addr now).1.nextOf T = s.mgr.nextOf T + p := by
      rw [ho.nextOf_getExpiredFuncs hinj hexp h.recurs, h.period]
      exact Nat.mod_eq_of_lt (hfit hexp)
    refine ⟨hmade, hsame.recurs.trans h.recurs, hsame.period.trans h.period, ?_, ?_, hhere, ?_⟩
    · rw [hnext, hlog, h.next, Nat.add_mul (collected T s.log + 1) 1 p]
      omega
    · rw [hnext]
      exact hfit hexp
    · refine .inr ⟨now, List.mem_append_right _ (List.mem_map_of_mem hexp), ?_⟩
      rw [hlog, ← h.next]
      exact hdue
  · have hcount : collected T (s.log ++ (s.mgr.expired now).map fun i => .collect i now) =
        collected T s.log := by
      rw [collected_append, collected_sweep, List.count_eq_zero.2 hexp, Nat.add_zero]
    have hnext : (s.mgr.getExpiredFuncs addr now).1.nextOf T = s.mgr.nextOf T :=
      nextOf_rearms_of_not_mem hexp
    refine ⟨hmade, hsame.recurs.trans h.recurs, hsame.period.trans h.period, ?_, ?_, hhere, ?_⟩
    · rw [hnext, hcount, h.next]
    · rw [hnext]
      exact h.bound
    · rw [hcount]
      rcases h.last with hzero | ⟨n, hn, hle⟩
      · exact .inl hzero
      · exact .inr ⟨n, List.mem_append_left _ hn, hle⟩

theorem Ticking.step (hinj : Function.Injective addr) (ho : InOrder addr s.mgr)
    (h : Ticking T t₀ p s) (hg : Alone T s a) (hs : Stepped addr s a s') : Ticking T t₀ p s' := by
  have hlt := h.lt_fresh
  cases hs with
  | addTimer =>
      refine h.congr (Function.update_of_ne hlt.ne _ _) rfl (fun _ hn => hn) fun hins => ?_
      exact h.here fun hmem => hins (List.mem_cons_of_mem _ hmem)
  | @cancel i hk =>
      refine h.congr rfl ?_ (fun _ hn => List.mem_append_left _ hn) fun hins => ?_
      · simp [collected, Record.isCollect]
      · exact (ho.mem_cancel hinj).2 ⟨h.here hins, Ne.symm hg⟩
  | @refresh i now hk hf =>
      refine h.congr (Function.update_of_ne (Ne.symm hg) _ _) ?_ (fun _ hn => List.mem_append_left _ hn)
        fun hins => ?_
      · simp [collected, Record.isCollect]
      · have hold : T ∈ s.mgr.timers := h.here fun hmem => hins (List.mem_cons_of_mem _ hmem)
        exact (ho.mem_cancel hinj).2 ⟨hold, Ne.symm hg⟩
  | refreshFails =>
      refine h.congr rfl ?_ (fun _ hn => List.mem_append_left _ hn) h.here
      simp [collected, Record.isCollect]
  | getExpiredFuncs =>
      exact h.congr rfl rfl (fun _ hn => hn) fun hins =>
        h.here fun hmem => hins (List.mem_cons_of_mem _ hmem)
  | @insert k i c hc hci =>
      refine h.congr (congrFun addTimerPtr_obj T) rfl (fun _ hn => hn) fun hins => ?_
      by_cases hT : .insert T ∈ s.calls
      · -- the call that went on is the one that inserts the timer
        have hcT : c = .insert T := by
          by_contra hne
          exact hins ((mem_eraseIdx hc (Ne.symm hne)).2 hT)
        have hiT : i = T := by
          rcases hci with hci | hci <;> rw [hcT] at hci <;> cases hci
          rfl
        subst hiT
        exact (mem_addTimerPtr hinj h.made).2 (.inl rfl)
      · unfold addTimerPtr
        split
        · exact h.here hT
        · exact OrderedSet.mem_insert_of_mem (h.here hT)
  | @look k now hc ht =>
      refine h.congr rfl rfl (fun _ hn => hn) fun hins => h.here fun hmem => hins ?_
      exact List.mem_cons_of_mem _ ((mem_eraseIdx hc (by simp)).2 hmem)
  | @lookEmpty k now hc ht =>
      refine h.congr rfl rfl (fun _ hn => hn) fun hins => h.here fun hmem => hins ?_
      exact (mem_eraseIdx hc (by simp)).2 hmem
  | @collect k now hc =>
      refine h.collect hinj ho (fun hexp => ?_) fun hins hmem => hins ?_
      · rw [← h.period]
        exact hg now hc hexp
      · exact (mem_eraseIdx hc (by simp)).2 hmem

lemma ticking_start (hcol : Collects s₀) {g : γ} (hfit : t₀ + p < 2 ^ 64)
    (hadd : s₀.step addr (.addTimer t₀ p g true) = some s₁) : Ticking s₀.mgr.fresh t₀ p s₁ := by
  cases hadd
  have hzero : collected s₀.mgr.fresh s₀.log = 0 :=
    collected_eq_zero fun n hlog => Nat.lt_irrefl _ (hcol _ n hlog)
  have hnext : u64 (t₀ + p) = t₀ + p := Nat.mod_eq_of_lt hfit
  refine ⟨?_, ?_, ?_, ?_, ?_, fun hins => absurd List.mem_cons_self hins, .inl hzero⟩
  · simp [make]
  · simp [recurs, make]
  · simp [periodOf, make]
  · simp [nextOf, make, hnext, hzero]
  · simpa [nextOf, make, hnext] using hfit

theorem Ticking.of_reach (hinj : Function.Injective addr) {G : Threads γ → Act γ → Prop}
    (h₀ : Reach (Threads.step addr) G {} s₁) (hstart : Ticking T t₀ p s₁)
    (h : Reach (Threads.step addr) (Alone T) s₁ s) : InOrder addr s.mgr ∧ Ticking T t₀ p s := by
  refine h.inv (P := fun s => InOrder addr s.mgr ∧ Ticking T t₀ p s)
    ⟨InOrder.of_reach hinj h₀, hstart⟩ fun _ hx hg hs => ?_
  exact ⟨hx.1.step hinj (step_inv hs), hx.2.step hinj hx.1 hg (step_inv hs)⟩

/-! ### Polling -/

/-- The timer has not been collected more often than whole periods have passed, at any reading not
before those at which it was collected. -/
lemma Ticking.collected_le (h : Ticking T t₀ p s) (hp : 0 < p)
    (hnow : ∀ n, .collect T n ∈ s.log → n ≤ now) : collected T s.log ≤ (now - t₀) / p := by
  rcases h.last with hzero | ⟨n, hn, hle⟩
  · rw [hzero]
    exact Nat.zero_le _
  · rw [Nat.le_div_iff_mul_le hp]
    have := hnow n hn
    omega

/-- If the timer is not due, it has been collected once for every whole period. -/
lemma Ticking.collected_eq (h : Ticking T t₀ p s) (hp : 0 < p)
    (hnow : ∀ n, .collect T n ∈ s.log → n ≤ now) (hdue : now < s.mgr.nextOf T) :
    collected T s.log = (now - t₀) / p := by
  refine le_antisymm (h.collected_le hp hnow) ?_
  rw [h.next] at hdue
  have hpos : 0 < (collected T s.log + 1) * p := Nat.mul_pos (Nat.succ_pos _) hp
  have hlt : (now - t₀) / p < collected T s.log + 1 := by
    rw [Nat.div_lt_iff_lt_mul hp]
    omega
  omega

lemma hasTimers_of_mem {m : TimerManager γ} {i : ℕ} (h : i ∈ m.timers) : m.hasTimers = true := by
  cases hl : m.timers with
  | nil => simp [hl] at h
  | cons => simp [hasTimers, hl]

/-- The actions of a call of `getExpiredFuncs` that finds timers and is not interrupted. -/
def poll (now : ℕ) : List (Act γ) := [.getExpiredFuncs now, .next 0, .next 0]

lemma run_poll (ht : s.mgr.hasTimers = true) :
    run (Threads.step addr) (fun _ _ => true) s (poll now) =
      some { mgr := (s.mgr.getExpiredFuncs addr now).1, calls := s.calls
             log := s.log ++ (s.mgr.expired now).map fun i => .collect i now } := by
  simp [poll, run, Threads.step, Threads.proceed, ht]

lemma Ticking.poll (hinj : Function.Injective addr) (ho : InOrder addr s.mgr)
    (h : Ticking T t₀ p s) (hins : .insert T ∉ s.calls) (hfit : now + p < 2 ^ 64)
    (hnow : ∀ n, .collect T n ∈ s.log → n ≤ now) :
    ∃ s', run (Threads.step addr) (fun _ _ => true) s (TimerManager.poll now) = some s' ∧
      InOrder addr s'.mgr ∧ Ticking T t₀ p s' ∧ .insert T ∉ s'.calls ∧
      (∀ n, .collect T n ∈ s'.log → n ≤ now) ∧
      collected T s'.log = collected T s.log + if s.mgr.nextOf T ≤ now then 1 else 0 := by
  have hT := h.here hins
  have hfits : T ∈ s.mgr.expired now → s.mgr.nextOf T + p < 2 ^ 64 := fun hexp => by
    have := (mem_expired.1 hexp).2
    omega
  refine ⟨_, run_poll (hasTimers_of_mem hT), ho.getExpiredFuncs hinj now,
    h.collect hinj ho hfits fun hc => hc, hins, fun n hlog => ?_, ?_⟩
  · rcases List.mem_append.1 hlog with hlog | hlog
    · exact hnow n hlog
    · obtain ⟨i, -, heq⟩ := List.mem_map.1 hlog
      exact (Record.collect.inj heq).2.ge
  · rw [collected_append, collected_sweep, count_expired hinj ho hT]

/-- Polling at the reading `now`, `j` times: either all whole periods have been collected, or one
for each call. -/
lemma Ticking.polls (hinj : Function.Injective addr) (hp : 0 < p) (hfit : now + p < 2 ^ 64) (j : ℕ)
    (ho : InOrder addr s.mgr) (h : Ticking T t₀ p s) (hins : .insert T ∉ s.calls)
    (hnow : ∀ n, .collect T n ∈ s.log → n ≤ now) :
    ∃ s', run (Threads.step addr) (fun _ _ => true) s
        (List.replicate j (TimerManager.poll now)).flatten = some s' ∧
      Ticking T t₀ p s' ∧ .insert T ∉ s'.calls ∧ (∀ n, .collect T n ∈ s'.log → n ≤ now) ∧
      (collected T s'.log = (now - t₀) / p ∨ collected T s'.log = collected T s.log + j) := by
  induction j generalizing s with
  | zero => exact ⟨s, rfl, h, hins, hnow, .inr rfl⟩
  | succ j ih =>
      obtain ⟨s₁, hrun, ho₁, h₁, hins₁, hnow₁, hcount⟩ := h.poll hinj ho hins hfit hnow
      obtain ⟨s₂, hrun₂, h₂, hins₂, hnow₂, hor⟩ := ih ho₁ h₁ hins₁ hnow₁
      refine ⟨s₂, ?_, h₂, hins₂, hnow₂, ?_⟩
      · rw [List.replicate_succ, List.flatten_cons, run_append, hrun]
        exact hrun₂
      · by_cases hdue : s.mgr.nextOf T ≤ now
        · rw [if_pos hdue] at hcount
          omega
        · -- not due: all whole periods have been collected, and no later call collects one more
          have hall := h.collected_eq hp hnow (Nat.lt_of_not_le hdue)
          have hle := h₂.collected_le hp hnow₂
          rw [if_neg hdue] at hcount
          omega

/-! ### The result -/

/-- **A recurring timer keeps to its schedule.** Let `T` be added at `t₀` with a period `p > 0`, in
any state, and let it be neither cancelled nor refreshed afterwards, and its deadlines not exceed `2
^ 64 - 1`. Once `addTimer` has returned, with `k` for the number of times it was collected: it is in
the set, with the deadline `t₀ + (k + 1) * p`; a call of `getExpiredFuncs` gets to its second
section, which returns the functions of the timers it collects, `T` among them once if that deadline
has come, and otherwise not; at a reading that is not before those at which it was collected, `k` is
at most the number of whole periods since `t₀`; and calling `getExpiredFuncs` again and again at
such a reading makes `k` that number, as soon as nothing expires any more, and after as many calls
as there were periods to catch up. -/
theorem recurring_on_time (hinj : Function.Injective addr) {g : γ} (hp : 0 < p)
    (hfit : t₀ + p < 2 ^ 64) (h₀ : Reach (Threads.step addr) Free {} s₀)
    (hadd : s₀.step addr (.addTimer t₀ p g true) = some s₁)
    (h : Reach (Threads.step addr) (Alone s₀.mgr.fresh) s₁ s)
    (hknown : s.known s₀.mgr.fresh = true) :
    (s₀.mgr.fresh ∈ s.mgr.timers ∧
      s.mgr.nextOf s₀.mgr.fresh = t₀ + (collected s₀.mgr.fresh s.log + 1) * p) ∧
    (s.mgr.funcOf s₀.mgr.fresh = some g ∧ ∀ now, s.mgr.hasTimers = true ∧
      (s.mgr.getExpiredFuncs addr now).2.map some = (s.mgr.expired now).map s.mgr.funcOf ∧
      (s.mgr.expired now).count s₀.mgr.fresh =
        if t₀ + (collected s₀.mgr.fresh s.log + 1) * p ≤ now then 1 else 0) ∧
    (∀ now, (∀ n, .collect s₀.mgr.fresh n ∈ s.log → n ≤ now) →
      collected s₀.mgr.fresh s.log ≤ (now - t₀) / p ∧
      (now + p < 2 ^ 64 → ∀ j, ∃ s', run (Threads.step addr) (fun _ _ => true) s
        (List.replicate j (poll now)).flatten = some s' ∧
        (s'.mgr.expired now = [] ∨ (now - t₀) / p ≤ collected s₀.mgr.fresh s.log + j →
          collected s₀.mgr.fresh s'.log = (now - t₀) / p))) := by
  obtain ⟨ho, hx⟩ := Ticking.of_reach hinj (h₀.tail trivial hadd)
    (ticking_start (Collects.of_reach h₀) hfit hadd) h
  have hins := (Threads.known_iff.1 hknown).2
  have hT := hx.here hins
  have hfunc : s.mgr.funcOf s₀.mgr.fresh = some g :=
    h.inv (P := fun s => s.mgr.funcOf s₀.mgr.fresh = some g)
      (by cases hadd; simp [funcOf, make]) fun _ hg _ hs => (step_inv hs).funcOf_eq hg
  refine ⟨⟨hT, hx.next⟩, ⟨hfunc, fun now => ⟨hasTimers_of_mem hT, ?_, ?_⟩⟩, fun now hnow =>
    ⟨hx.collected_le hp hnow, fun hnofit j => ?_⟩⟩
  · exact map_funcOf fun i hi => (mem_expired.1 hi).1
  · rw [← hx.next]
    exact count_expired hinj ho hT
  · obtain ⟨s', hrun, hx', hins', hnow', hor⟩ := hx.polls hinj hp hnofit j ho hins hnow
    refine ⟨s', hrun, fun hend => ?_⟩
    rcases hend with hempty | hj
    · refine hx'.collected_eq hp hnow' (Nat.lt_of_not_le fun hdue => ?_)
      have hexp : s₀.mgr.fresh ∈ s'.mgr.expired now := mem_expired.2 ⟨hx'.here hins', hdue⟩
      simp [hempty] at hexp
    · have := hx'.collected_le hp hnow'
      omega

/-- A timer with the period 10, added at 5: at the reading 38 it is three periods behind, and three
calls collect it three times. -/
theorem recurring_on_time_late :
    ∃ s s' : Threads ℕ, run (Threads.step id) (fun _ _ => true) {}
        [.addTimer 5 10 0 true, .next 0] = some s ∧
      run (Threads.step id) (fun _ _ => true) s (List.replicate 3 (poll 38)).flatten = some s' ∧
      collected 0 s'.log = 3 := by
  have hguard : ∀ s : Threads ℕ, s.calls = [.insert 0] → Alone 0 s (.next 0) := by
    intro s hcalls now hc
    simp [hcalls] at hc
  obtain ⟨-, -, hpoll⟩ := recurring_on_time (g := 0) Function.injective_id (by decide : 0 < 10)
    (by decide : 5 + 10 < 2 ^ 64) .refl rfl (Reach.refl.tail (hguard _ rfl) rfl) rfl
  obtain ⟨s', hrun, hall⟩ := (hpoll 38 fun _ hn => absurd hn List.not_mem_nil).2 (by decide) 3
  exact ⟨_, s', rfl, hrun, hall (.inr (by decide))⟩

end Eva01.TimerManager
