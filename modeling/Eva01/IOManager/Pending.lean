import Eva01.IOManager.Slots

/-!
The count of pending events, and the fate of every registration.

Several workers work on the same contexts: each section runs under the mutex of its context, so a
history of the contexts is a list of sections in some order, whoever issues them. What a worker
handles is a report it fetched earlier, with no lock held in between: the mask was reportable when
`epoll_wait` returned it, and may be out of date when `scheduleEvent` gets to it. `Account` keeps
the masks fetched so far, numbers the registrations, and records what became of each: the target
that was scheduled for it, or that it was dropped by `delEvent`.

`scheduleEvent` fires what the mask says, not what the context says. As long as the mask is still
registered as a whole, or not at all, everything adds up (`pending_counts_registered`). A mask of
which one event is still registered and the other is not makes `FdContext::scheduleEvent` fail its
assertion (`stale_mask_fails`).
-/

namespace Eva01.IOManager

open Eva01.Lib.Runs

variable {N : ℕ} {φ γ : Type*}

/-! ### Histories with the fate of every registration -/

/-- `epoll_wait` may report `r` for the context: something is registered, and of `EPOLLIN` and
`EPOLLOUT` only what is registered is reported. -/
def Reportable (c : FdContext φ γ) (r : Report) : Prop :=
  c.events ≠ .none ∧ c.events.inter r.events = r.events ∧ (r.error = true ∨ r.events ≠ .none)

instance (c : FdContext φ γ) (r : Report) : Decidable (Reportable c r) := by
  unfold Reportable; infer_instance

/-- The contexts, with the history of reports and registrations. -/
structure Account (N : ℕ) (φ γ : Type*) where
  fds : Fds N φ γ := {}
  /-- Every mask fetched so far. -/
  seen : List (Fin N × Report) := []
  /-- The slot asked for by each successful `addEvent`, in order: its index is its number. -/
  asked : List (EventContext φ γ) := []
  /-- The number of the latest registration of an event. -/
  current : Fin N → Event → ℕ := fun _ _ => 0
  /-- The registrations that were scheduled, with what was scheduled. -/
  scheduled : List (ℕ × Target φ γ) := []
  /-- The registrations `delEvent` dropped. -/
  dropped : List ℕ := []

/-- A worker fetches a report, or runs a section. -/
inductive Act (N : ℕ) (φ γ : Type*)
  | poll (fd : Fin N) (r : Report)
  | op (op : Op N φ γ)

/-- A section runs at any time, but a report is only handled if it was fetched before. -/
def Enabled (s : Account N φ γ) : Op N φ γ → Prop
  | .scheduleEvent fd r => (fd, r) ∈ s.seen
  | _ => True

instance (s : Account N φ γ) (op : Op N φ γ) : Decidable (Enabled s op) := by
  cases op <;> unfold Enabled <;> infer_instance

/-- What a section that left `o` adds to the history. An event that left the mask is what the
section consumed; the targets are paired with the consumed events in order. -/
def Account.record (s : Account N φ γ) (op : Op N φ γ) (o : Outcome φ γ) : Account N φ γ :=
  let s' := { s with fds := s.fds.put op.fd o }
  let gone := ((s.fds.ctx op.fd).events.diff o.ctx.events).toList.map (s.current op.fd)
  match op with
  | .addEvent fd e func self =>
      { s' with
        asked := s.asked ++ [slotFor func self]
        current := Function.update s.current fd
          (Function.update (s.current fd) e s.asked.length) }
  | .delEvent _ _ => { s' with dropped := s.dropped ++ gone }
  | _ => { s' with scheduled := s.scheduled ++ gone.zip o.targets }

def Account.step (s : Account N φ γ) : Act N φ γ → Option (Account N φ γ)
  | .poll fd r =>
      if Reportable (s.fds.ctx fd) r then some { s with seen := (fd, r) :: s.seen } else none
  | .op op =>
      if Enabled s op then
        match op.apply (s.fds.ctx op.fd) s.fds.pending with
        | .error _ => none
        | .ok o => some (s.record op o)
      else none

/-- The reported events are all still registered, or none of them is. -/
def Whole (c : FdContext φ γ) (r : Report) : Prop :=
  c.events.inter (triggered c r) = .none ∨ c.events.inter (triggered c r) = triggered c r

instance (c : FdContext φ γ) (r : Report) : Decidable (Whole c r) := by
  unfold Whole; infer_instance

/-- Every report is handled while its mask is whole. -/
def WholeReports (s : Account N φ γ) : Act N φ γ → Prop
  | .op (.scheduleEvent fd r) => Whole (s.fds.ctx fd) r
  | _ => True

instance (s : Account N φ γ) (a : Act N φ γ) : Decidable (WholeReports s a) := by
  unfold WholeReports; split <;> infer_instance

/-- How often the registration `k` is in force: the events registered under its number. -/
def Account.registered (s : Account N φ γ) (k : ℕ) : ℕ :=
  ∑ fd, ((s.fds.ctx fd).events.toList.map (s.current fd)).count k

/-! ### Masks and counts -/

lemma diff_diff {s m : Events} (h : ∀ e, m.has e = true → s.has e = true) :
    s.diff (s.diff m) = m := by
  refine Events.ext_has fun e => ?_
  rw [Events.has_diff, Events.has_diff]
  cases hs : s.has e <;> cases hm : m.has e <;> simp_all

lemma count_diff {s m : Events} (h : ∀ e, m.has e = true → s.has e = true) (num : Event → ℕ)
    (k : ℕ) :
    ((s.diff m).toList.map num).count k + (m.toList.map num).count k =
      (s.toList.map num).count k := by
  obtain ⟨r, w⟩ := s
  obtain ⟨r', w'⟩ := m
  have hr := h .read
  have hw := h .write
  cases r <;> cases w <;> cases r' <;> cases w' <;>
    simp_all [Events.has, Events.diff, Events.toList, List.count_cons, Nat.add_comm]

lemma count_add {s : Events} {e : Event} (h : s.has e = false) (num : Event → ℕ) (k m : ℕ) :
    ((s.add e).toList.map (Function.update num e m)).count k =
      (s.toList.map num).count k + if m = k then 1 else 0 := by
  obtain ⟨r, w⟩ := s
  cases e <;> cases r <;> cases w <;> simp_all [Events.has, Events.add, Events.toList,
    List.count_cons, Function.update, Nat.add_comm]

lemma sizeDec_iterate {n x : ℕ} (h : n ≤ x) : sizeDec^[n] x = x - n := by
  induction n generalizing x with
  | zero => rfl
  | succ n ih =>
      rw [Function.iterate_succ_apply, sizeDec_of_pos (by omega), ih (by omega)]
      omega

/-- The targets of armed slots, paired with numbers of the events they belong to. -/
lemma zip_targets {c : FdContext φ γ} {m : Events}
    (harmed : ∀ e, m.has e = true → (c.getContext e).Armed) (num : Event → ℕ) :
    ((m.toList.map num).zip (c.targets m)).map Prod.fst = m.toList.map num ∧
      ∀ p ∈ (m.toList.map num).zip (c.targets m),
        ∃ e, m.has e = true ∧ p.1 = num e ∧ (c.getContext e).target = some p.2 := by
  obtain ⟨r, w⟩ := m
  have hr := harmed .read
  have hw := harmed .write
  simp only [Events.has, FdContext.getContext, EventContext.Armed] at hr hw
  cases r <;> cases w
  · simp [Events.toList]
  · obtain ⟨t, ht⟩ := Option.isSome_iff_exists.1 (hw rfl).2
    simp only [Events.toList, FdContext.targets, ht]
    refine ⟨rfl, fun p hp => ⟨.write, rfl, ?_⟩⟩
    simp only [Bool.false_eq_true, if_false, if_true, List.nil_append, Option.toList_some,
      List.map_cons, List.map_nil, List.zip_cons_cons, List.zip_nil_right, List.mem_singleton] at hp
    rw [hp]
    exact ⟨rfl, ht⟩
  · obtain ⟨t, ht⟩ := Option.isSome_iff_exists.1 (hr rfl).2
    simp only [Events.toList, FdContext.targets, ht]
    refine ⟨rfl, fun p hp => ⟨.read, rfl, ?_⟩⟩
    simp only [Bool.false_eq_true, if_false, if_true, List.append_nil, Option.toList_some,
      List.map_cons, List.map_nil, List.zip_cons_cons, List.zip_nil_right, List.mem_singleton] at hp
    rw [hp]
    exact ⟨rfl, ht⟩
  · obtain ⟨t, ht⟩ := Option.isSome_iff_exists.1 (hr rfl).2
    obtain ⟨u, hu⟩ := Option.isSome_iff_exists.1 (hw rfl).2
    simp only [Events.toList, FdContext.targets, ht, hu]
    refine ⟨rfl, fun p hp => ?_⟩
    simp only [if_true, Option.toList_some, List.map_cons, List.map_nil,
      List.cons_append, List.nil_append, List.zip_cons_cons, List.zip_nil_right, List.mem_cons,
      List.not_mem_nil, or_false] at hp
    rcases hp with rfl | rfl
    · exact ⟨.read, rfl, rfl, ht⟩
    · exact ⟨.write, rfl, rfl, hu⟩

lemma sum_card_le (s : Fds N φ γ) : ∑ fd, (s.ctx fd).events.card ≤ 2 * N := by
  have h := Finset.sum_le_card_nsmul Finset.univ (fun fd => (s.ctx fd).events.card) 2
    fun fd _ => Events.card_le _
  simpa [Nat.mul_comm] using h

/-! ### The books are kept -/

/-- What holds throughout a history whose reports are handled whole. -/
structure Accounted (s : Account N φ γ) : Prop where
  /-- The slot of a registered event is armed, with what its registration asked for. -/
  armed : ∀ fd e, (s.fds.ctx fd).events.has e = true →
    ((s.fds.ctx fd).getContext e).Armed ∧
      s.asked[s.current fd e]? = some ((s.fds.ctx fd).getContext e)
  /-- The count is the number of bits set. -/
  pending : s.fds.pending = ∑ fd, (s.fds.ctx fd).events.card
  /-- A registration is in force, or dropped, or scheduled: one of these, and once. -/
  once : ∀ k, s.registered k + s.dropped.count k + (s.scheduled.map Prod.fst).count k =
    if k < s.asked.length then 1 else 0
  /-- What was scheduled for a registration is what it asked for. -/
  target : ∀ p ∈ s.scheduled, ∃ x, s.asked[p.1]? = some x ∧ x.target = some p.2

lemma accounted_init : Accounted ({} : Account N φ γ) where
  armed fd e h := by cases e <;> cases h
  pending := by simp [Events.card]
  once k := by simp [Account.registered, Events.toList]
  target p hp := by cases hp

section Record

variable (s : Account N φ γ) (op : Op N φ γ) (o : Outcome φ γ)

@[simp] lemma record_fds : (s.record op o).fds = s.fds.put op.fd o := by
  unfold Account.record
  cases op <;> rfl

lemma record_ctx_self : (s.record op o).fds.ctx op.fd = o.ctx := by simp [Fds.put]

lemma record_ctx_of_ne {fd : Fin N} (h : fd ≠ op.fd) : (s.record op o).fds.ctx fd = s.fds.ctx fd := by
  simp [Fds.put, Function.update_of_ne h]

lemma record_current_of_ne {fd : Fin N} (h : fd ≠ op.fd) :
    (s.record op o).current fd = s.current fd := by
  unfold Account.record
  cases op <;> first | rfl | exact Function.update_of_ne h _ _

/-- A section changes the number of bits by what it does to its own context. -/
lemma sum_card_record :
    ∑ fd, ((s.record op o).fds.ctx fd).events.card + (s.fds.ctx op.fd).events.card =
      ∑ fd, (s.fds.ctx fd).events.card + o.ctx.events.card := by
  have h := sum_changed (fun fd => (s.fds.ctx fd).events.card)
    (fun fd => ((s.record op o).fds.ctx fd).events.card) op.fd
    fun fd hne => by simp only [record_ctx_of_ne s op o hne]
  simpa only [record_ctx_self] using h

lemma registered_record (k : ℕ) :
    (s.record op o).registered k +
        ((s.fds.ctx op.fd).events.toList.map (s.current op.fd)).count k =
      s.registered k + (o.ctx.events.toList.map ((s.record op o).current op.fd)).count k := by
  have h := sum_changed (fun fd => ((s.fds.ctx fd).events.toList.map (s.current fd)).count k)
    (fun fd => (((s.record op o).fds.ctx fd).events.toList.map
      ((s.record op o).current fd)).count k) op.fd
    fun fd hne => by simp only [record_ctx_of_ne s op o hne, record_current_of_ne s op o hne]
  unfold Account.registered
  simpa only [record_ctx_self] using h

end Record

theorem Accounted.record_add {s : Account N φ γ} (hs : Accounted s) (hN : N ≤ 2 ^ 31)
    {fd : Fin N} {e : Event} {func : Option γ} {self : φ} {o : Outcome φ γ}
    (h : (Op.addEvent fd e func self).apply (s.fds.ctx fd) s.fds.pending = .ok o) :
    Accounted (s.record (.addEvent fd e func self) o) := by
  obtain ⟨he, -, ho⟩ := addEvent_apply_ok h
  have hev : o.ctx.events = (s.fds.ctx fd).events.add e := by simp [ho]
  have hasked : ∀ {k x}, s.asked[k]? = some x → (s.asked ++ [slotFor func self])[k]? = some x :=
    fun {k x} hk => by rw [List.getElem?_append_left (List.getElem?_eq_some_iff.1 hk).1, hk]
  refine ⟨fun fd' e' h' => ?_, ?_, fun k => ?_, fun p hp => ?_⟩
  · by_cases hfd : fd' = fd
    · subst hfd
      simp only [Account.record, Fds.put, Op.fd, Function.update_self, ho,
        FdContext.setContext_events] at h' ⊢
      by_cases hee : e' = e
      · subst hee
        simp [slotFor_armed]
      · rw [Events.has_add_of_ne _ hee] at h'
        rw [FdContext.getContext_setContext_of_ne _ hee, FdContext.getContext_events,
          Function.update_of_ne hee]
        exact ⟨(hs.armed fd' e' h').1, hasked (hs.armed fd' e' h').2⟩
    · rw [record_ctx_of_ne _ _ _ hfd] at h' ⊢
      rw [record_current_of_ne _ _ _ hfd]
      exact ⟨(hs.armed fd' e' h').1, hasked (hs.armed fd' e' h').2⟩
  · have hsum := sum_card_record s (.addEvent fd e func self) o
    have hle := sum_card_le s.fds
    rw [← hs.pending] at hsum hle
    have hpend : (s.record (.addEvent fd e func self) o).fds.pending = sizeInc s.fds.pending := by
      simp [Fds.put, ho]
    rw [hpend, sizeInc_of_lt (by omega)]
    rw [hev, Events.card_add he] at hsum
    simp only [Op.fd] at hsum
    omega
  · have hsum := registered_record s (.addEvent fd e func self) o k
    have hadd := count_add he (s.current fd) k s.asked.length
    have hold := hs.once k
    have hcur : (s.record (.addEvent fd e func self) o).current fd =
        Function.update (s.current fd) e s.asked.length := by simp [Account.record]
    simp only [Op.fd, hcur, hev, hadd] at hsum
    simp only [Account.record, List.length_append, List.length_singleton] at hsum ⊢
    split_ifs at hsum hold ⊢ <;> omega
  · obtain ⟨x, hx, ht⟩ := hs.target p hp
    exact ⟨x, hasked hx, ht⟩

theorem Accounted.record_taken {s : Account N φ γ} (hs : Accounted s) {op : Op N φ γ}
    {o : Outcome φ γ} (hop : op.isAdd = false)
    (h : op.apply (s.fds.ctx op.fd) s.fds.pending = .ok o) : Accounted (s.record op o) := by
  obtain ⟨hctx, hpend, htargets⟩ := apply_taken hop h
  have hsub : ∀ e, (op.taken (s.fds.ctx op.fd)).has e = true →
      (s.fds.ctx op.fd).events.has e = true := fun e => taken_has
  have hasked : (s.record op o).asked = s.asked := by cases op <;> first | rfl | cases hop
  have hcur : (s.record op o).current = s.current := by cases op <;> first | rfl | cases hop
  have hgone : (s.fds.ctx op.fd).events.diff o.ctx.events = op.taken (s.fds.ctx op.fd) := by
    rw [hctx]; exact diff_diff hsub
  have hev : o.ctx.events = (s.fds.ctx op.fd).events.diff (op.taken (s.fds.ctx op.fd)) := by
    rw [hctx]
  have hzip := zip_targets (fun e he => (hs.armed op.fd e (hsub e he)).1) (s.current op.fd)
  refine ⟨fun fd e he => ?_, ?_, fun k => ?_, fun p hp => ?_⟩
  · rw [hcur, hasked]
    by_cases hfd : fd = op.fd
    · subst hfd
      rw [record_ctx_self, hctx] at he ⊢
      rw [FdContext.getContext_events]
      rw [Events.has_diff, Bool.and_eq_true] at he
      exact hs.armed op.fd e he.1
    · rw [record_ctx_of_ne _ _ _ hfd] at he ⊢
      exact hs.armed fd e he
  · have hsum := sum_card_record s op o
    have hle : (s.fds.ctx op.fd).events.card ≤ ∑ fd, (s.fds.ctx fd).events.card :=
      le_sum (f := fun fd => (s.fds.ctx fd).events.card) op.fd
    have hcard := Events.card_diff hsub
    have hp : (s.record op o).fds.pending = o.pending := by simp [Fds.put]
    rw [← hs.pending] at hle hsum
    rw [hev] at hsum
    rw [hp, hpend, sizeDec_iterate (by omega)]
    omega
  · have hsum := registered_record s op o k
    have hcount := count_diff hsub (s.current op.fd) k
    have hold := hs.once k
    rw [hev, hcur] at hsum
    rw [hasked, ← hold]
    cases hdel : op.isDel with
    | true =>
        have hd : (s.record op o).dropped =
            s.dropped ++ (op.taken (s.fds.ctx op.fd)).toList.map (s.current op.fd) := by
          rw [← hgone]
          cases op <;> first | rfl | cases hdel
        have hsched : (s.record op o).scheduled = s.scheduled := by
          cases op <;> first | rfl | cases hdel
        rw [hd, hsched, List.count_append]
        omega
    | false =>
        have hd : (s.record op o).dropped = s.dropped := by
          cases op <;> first | rfl | cases hdel
        have hsched : (s.record op o).scheduled = s.scheduled ++
            ((op.taken (s.fds.ctx op.fd)).toList.map (s.current op.fd)).zip
              ((s.fds.ctx op.fd).targets (op.taken (s.fds.ctx op.fd))) := by
          rw [hdel] at htargets
          cases op with
          | addEvent => cases hop
          | delEvent => cases hdel
          | cancelEvent | cancelAll | scheduleEvent =>
              simp only [Account.record, hgone, htargets, Bool.false_eq_true, if_false]
        rw [hd, hsched, List.map_append, hzip.1, List.count_append]
        omega
  · rw [hasked]
    cases op with
    | addEvent => cases hop
    | delEvent => exact hs.target p hp
    | cancelEvent | cancelAll | scheduleEvent =>
        simp only [Account.record, hgone, htargets, Op.isDel, Bool.false_eq_true, if_false,
          List.mem_append] at hp
        rcases hp with hp | hp
        · exact hs.target p hp
        · obtain ⟨e, he, hnum, ht⟩ := hzip.2 p hp
          exact ⟨_, hnum ▸ (hs.armed _ e (hsub e he)).2, ht⟩

theorem step_accounted (hN : N ≤ 2 ^ 31) {s s' : Account N φ γ} {a : Act N φ γ} (hs : Accounted s)
    (h : s.step a = some s') : Accounted s' := by
  cases a with
  | poll fd r =>
      simp only [Account.step] at h
      split at h
      · cases h
        exact ⟨hs.armed, hs.pending, hs.once, hs.target⟩
      · cases h
  | op op =>
      simp only [Account.step] at h
      split at h
      · split at h
        · cases h
        · rename_i o ho
          cases h
          cases hop : op.isAdd with
          | true =>
              cases op with
              | addEvent fd e func self => exact hs.record_add hN ho
              | delEvent | cancelEvent | cancelAll | scheduleEvent => cases hop
          | false => exact hs.record_taken hop ho
      · cases h

/-! ### When a report is handled as it should be -/

/-- The report is handled: no assertion fails, the reported events leave the mask, and the targets
of exactly those that were both reported and registered are scheduled. -/
def Handled (c : FdContext φ γ) (pending : ℕ) (r : Report) : Prop :=
  ∃ o, scheduleEvent c pending r true = .ok o ∧ o.ctx.events = c.events.diff (triggered c r) ∧
    o.targets = c.targets (c.events.inter (triggered c r))

lemma diff_of_inter_none {s m : Events} (h : s.inter m = .none) : s.diff m = s := by
  refine Events.ext_has fun e => ?_
  have he := Events.eq_none_iff.1 h e
  rw [Events.has_inter] at he
  rw [Events.has_diff]
  cases hs : s.has e <;> simp_all

theorem handled_iff_whole {c : FdContext φ γ} (pending : ℕ) (r : Report)
    (harmed : ∀ e, c.events.has e = true → (c.getContext e).Armed) :
    Handled c pending r ↔ Whole c r := by
  constructor
  · rintro ⟨o, ho, -, -⟩
    rcases scheduleEvent_ok ho with ⟨hn, -⟩ | ⟨-, hready, -⟩
    · exact .inl hn
    · exact .inr (inter_eq_right fun e he => (hready e he).1)
  · intro hw
    by_cases hn : c.events.inter (triggered c r) = .none
    · refine ⟨{ ctx := c, pending := pending, ret := false }, ?_, ?_, ?_⟩
      · rw [scheduleEvent_eq, if_pos hn]
      · exact (diff_of_inter_none hn).symm
      · rw [hn]; rfl
    · have heq : c.events.inter (triggered c r) = triggered c r := hw.resolve_left hn
      have hready : c.Ready (triggered c r) := fun e he => by
        have hc : c.events.has e = true := by
          rw [← heq, Events.has_inter, Bool.and_eq_true] at he
          exact he.1
        exact ⟨hc, harmed e hc⟩
      refine ⟨fired c pending (triggered c r), ?_, rfl, by rw [heq]; rfl⟩
      rw [scheduleEvent_eq, if_neg hn, fireBoth_of_ready hready]

lemma cancel_isSome {c : FdContext φ γ} (pending : ℕ) {op : Op N φ γ} (hop : op.isAdd = false)
    (harmed : ∀ e, c.events.has e = true → (c.getContext e).Armed)
    (hw : ∀ fd r, op = .scheduleEvent fd r → Whole c r) : ∃ o, op.apply c pending = .ok o := by
  cases op with
  | addEvent => cases hop
  | delEvent fd e => cases he : c.events.has e <;> simp [Op.apply, Op.applyCtl, IOManager.delEvent, he]
  | cancelEvent fd e =>
      cases he : c.events.has e with
      | false => simp [Op.apply, Op.applyCtl, IOManager.cancelEvent, he]
      | true => exact ⟨_, by simp [Op.apply, Op.applyCtl, IOManager.cancelEvent, he, fire_of_armed
          (o := { ctx := c, pending := pending, ret := true }) he (harmed e he)]; rfl⟩
  | cancelAll fd =>
      simp only [Op.apply, Op.applyCtl, cancelAll_eq]
      split
      · exact ⟨_, rfl⟩
      · exact ⟨_, fireBoth_of_ready (fun e he => ⟨he, harmed e he⟩) pending⟩
  | scheduleEvent fd r =>
      obtain ⟨o, ho, -⟩ := (handled_iff_whole pending r harmed).2 (hw fd r rfl)
      exact ⟨o, ho⟩

/-- **Pending accounting.** In every history whose reports are handled whole, the count is the
number of registered events, every registration is in force or was scheduled once or was dropped
once, with the target it asked for, and no section but `addEvent` fails an assertion. In each of
its states a report is handled as it should be exactly if its mask is whole. -/
theorem pending_counts_registered (hN : N ≤ 2 ^ 31) {s : Account N φ γ}
    (h : Reach Account.step WholeReports {} s) :
    s.fds.pending = ∑ fd, (s.fds.ctx fd).events.card ∧
    (∀ k < s.asked.length,
      s.registered k + s.dropped.count k + (s.scheduled.map Prod.fst).count k = 1) ∧
    (∀ p ∈ s.scheduled, ∃ x, s.asked[p.1]? = some x ∧ x.target = some p.2) ∧
    (∀ op : Op N φ γ, op.isAdd = false → Enabled s op → WholeReports s (.op op) →
      (s.step (.op op)).isSome) ∧
    ∀ fd r, Handled (s.fds.ctx fd) s.fds.pending r ↔ Whole (s.fds.ctx fd) r := by
  have hs : Accounted s := h.inv accounted_init fun _ hi _ hstep => step_accounted hN hi hstep
  have harmed : ∀ fd e, (s.fds.ctx fd).events.has e = true →
      ((s.fds.ctx fd).getContext e).Armed := fun fd e he => (hs.armed fd e he).1
  refine ⟨hs.pending, fun k hk => by rw [hs.once k, if_pos hk], hs.target,
    fun op hop hen hw => ?_, fun fd r => handled_iff_whole _ r (harmed fd)⟩
  obtain ⟨o, ho⟩ := cancel_isSome s.fds.pending hop (harmed op.fd)
    (by rintro fd r rfl; exact hw)
  simp [Account.step, hen, ho]

theorem pending_counts_registered_one :
    ∃ s : Account 1 ℕ String, s.scheduled = [(0, .fiber 7)] ∧
      s.fds.pending = ∑ fd, (s.fds.ctx fd).events.card ∧
      ∀ fd r, Handled (s.fds.ctx fd) s.fds.pending r ↔ Whole (s.fds.ctx fd) r := by
  have h : (run Account.step (fun s a => decide (WholeReports s a)) ({} : Account 1 ℕ String)
      [.op (.addEvent 0 .read none 7), .poll 0 ⟨⟨true, false⟩, false⟩,
        .op (.scheduleEvent 0 ⟨⟨true, false⟩, false⟩)]).any
      (fun s => s.scheduled == [(0, .fiber 7)]) = true := by decide
  obtain ⟨s, hs, hp⟩ := exists_reach_of_run (G := WholeReports) (fun _ _ => of_decide_eq_true) h
  obtain ⟨hpend, -, -, -, hhandled⟩ := pending_counts_registered (by decide) hs
  exact ⟨s, by simpa using hp, hpend, hhandled⟩

/-- Both events of a descriptor are registered and reported; before the report is handled another
worker cancels the read event. The report then fails the assertion of `FdContext::scheduleEvent`. -/
theorem stale_mask_fails :
    ∃ s : Account 1 ℕ String, Reach Account.step Free {} s ∧
      (0, ⟨⟨true, true⟩, false⟩) ∈ s.seen ∧
      (Op.scheduleEvent (0 : Fin 1) ⟨⟨true, true⟩, false⟩).apply (s.fds.ctx 0) s.fds.pending =
        .error .notRegistered := by
  have h : (run Account.step (fun _ _ => true) ({} : Account 1 ℕ String)
      [.op (.addEvent 0 .read none 7), .op (.addEvent 0 .write none 8),
        .poll 0 ⟨⟨true, true⟩, false⟩, .op (.cancelEvent 0 .read)]).any (fun s =>
        decide ((0, ⟨⟨true, true⟩, false⟩) ∈ s.seen) &&
        ((Op.scheduleEvent (0 : Fin 1) ⟨⟨true, true⟩, false⟩).apply (s.fds.ctx 0) s.fds.pending matches
          .error .notRegistered)) = true := by decide
  obtain ⟨s, hs, hp⟩ := exists_reach_of_run (G := Free) (fun _ _ _ => trivial) h
  simp only [Bool.and_eq_true, decide_eq_true_eq] at hp
  refine ⟨s, hs, hp.1, ?_⟩
  have hfail := hp.2
  split at hfail
  · assumption
  · cases hfail

end Eva01.IOManager
