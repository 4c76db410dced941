import Eva01.IOManager.FdContext
import Eva01.Lib.Runs

/-!
Histories of event operations, and what they leave in the slots.

`Fds` is the whole of what the operations work on: one context for each descriptor and the count
of pending events. A descriptor whose context the table has not grown to yet has the fresh context,
so the contexts are a function of the descriptor. `Fds.step` runs one operation to its end, with
every `epoll_ctl` call succeeding; an operation whose assertion fails ends the process and has no
next state.

The slots are meant to be empty exactly while their event is not registered (`SlotsKept`). Nothing
but `addEvent` ever writes a slot: `resetContext` and `FdContext::scheduleEvent` clear a copy. So
the slots are as meant up to the first event that leaves the mask, and from then on they are not
(`slots_kept_iff_nothing_taken`); the event concerned can never be registered again.
-/

namespace Eva01.IOManager

open Eva01.Lib.Runs

variable {N : ℕ} {φ γ : Type*}

/-- The contexts, by descriptor, and `m_pending_count`. -/
structure Fds (N : ℕ) (φ γ : Type*) where
  ctx : Fin N → FdContext φ γ := fun _ => {}
  pending : ℕ := 0

/-- The operations, as worker threads issue them; `self` is the fiber that calls `addEvent`. -/
inductive Op (N : ℕ) (φ γ : Type*)
  | addEvent (fd : Fin N) (e : Event) (func : Option γ) (self : φ)
  | delEvent (fd : Fin N) (e : Event)
  | cancelEvent (fd : Fin N) (e : Event)
  | cancelAll (fd : Fin N)
  | scheduleEvent (fd : Fin N) (r : Report)

/-- The descriptor an operation is about. -/
def Op.fd : Op N φ γ → Fin N
  | .addEvent fd _ _ _ | .delEvent fd _ | .cancelEvent fd _ | .cancelAll fd
  | .scheduleEvent fd _ => fd

/-- The section of an operation on the context of its descriptor, with the success of its
`epoll_ctl` call, if it makes one, for `rt`. -/
def Op.applyCtl (c : FdContext φ γ) (pending : ℕ) (rt : Bool) :
    Op N φ γ → Except Assertion (Outcome φ γ)
  | .addEvent _ e func self =>
      match addEventTest c e with
      | .error a => .error a
      | .ok () => IOManager.addEvent c pending e func self true rt
  | .delEvent _ e => IOManager.delEvent c pending e rt
  | .cancelEvent _ e => IOManager.cancelEvent c pending e rt
  | .cancelAll _ => IOManager.cancelAll c pending rt
  | .scheduleEvent _ r => IOManager.scheduleEvent c pending r rt

/-- The section when `epoll_ctl` succeeds. -/
def Op.apply (c : FdContext φ γ) (pending : ℕ) (op : Op N φ γ) : Except Assertion (Outcome φ γ) :=
  op.applyCtl c pending true

/-- Writing back what a section left. -/
def Fds.put (s : Fds N φ γ) (fd : Fin N) (o : Outcome φ γ) : Fds N φ γ :=
  { ctx := Function.update s.ctx fd o.ctx, pending := o.pending }

/-- One operation, with the history of the slots `addEvent` asked for. -/
structure Traced (N : ℕ) (φ γ : Type*) where
  fds : Fds N φ γ := {}
  /-- The slot of the latest `addEvent` on a descriptor and an event. -/
  latest : Fin N → Event → EventContext φ γ := fun _ _ => {}

def Traced.step (t : Traced N φ γ) (op : Op N φ γ) : Option (Traced N φ γ) :=
  match op.apply (t.fds.ctx op.fd) t.fds.pending with
  | .error _ => none
  | .ok o =>
      some { fds := t.fds.put op.fd o
             latest := match op with
               | .addEvent fd e func self => Function.update t.latest fd
                   (Function.update (t.latest fd) e (slotFor func self))
               | _ => t.latest }

/-! ### The slots as they are meant to be -/

/-- The slot of an event that is not registered is empty; that of a registered one holds a
scheduler and exactly one of fiber and function, the one of the latest `addEvent`. -/
def SlotsKept (t : Traced N φ γ) : Prop :=
  ∀ fd e,
    ((t.fds.ctx fd).events.has e = false → (t.fds.ctx fd).getContext e = {}) ∧
    ((t.fds.ctx fd).events.has e = true →
      (t.fds.ctx fd).getContext e = t.latest fd e ∧ (t.latest fd e).scheduler = true ∧
      ((t.latest fd e).fiber.isSome ≠ (t.latest fd e).func.isSome))

/-- The registered events an operation takes out of the mask of the context. -/
def Op.taken (c : FdContext φ γ) : Op N φ γ → Events
  | .addEvent _ _ _ _ => .none
  | .delEvent _ e | .cancelEvent _ e => c.events.inter (.single e)
  | .cancelAll _ => c.events
  | .scheduleEvent _ r => c.events.inter (triggered c r)

/-- Registering is the only operation that writes a slot. -/
def Op.isAdd : Op N φ γ → Bool
  | .addEvent _ _ _ _ => true
  | _ => false

def Op.isDel : Op N φ γ → Bool
  | .delEvent _ _ => true
  | _ => false

lemma slotFor_one (func : Option γ) (self : φ) :
    (slotFor func self).scheduler = true ∧
      (slotFor func self).fiber.isSome ≠ (slotFor func self).func.isSome := by
  cases func <;> simp [slotFor]

lemma inter_single_of_has {s : Events} {e : Event} (h : s.has e = true) :
    s.inter (.single e) = .single e := by
  refine Events.ext_has fun e' => ?_
  rw [Events.has_inter, Events.has_single]
  by_cases he : e' = e <;> simp [he, h]

lemma inter_single_of_not_has {s : Events} {e : Event} (h : s.has e = false) :
    s.inter (.single e) = .none := by
  refine Events.eq_none_iff.2 fun e' => ?_
  rw [Events.has_inter, Events.has_single]
  by_cases he : e' = e <;> simp [he, h]

lemma targets_single (c : FdContext φ γ) (e : Event) :
    c.targets (.single e) = (c.getContext e).target.toList := by
  cases e <;> simp [FdContext.targets, Events.single, Events.none, Events.add, FdContext.getContext]

lemma card_single (e : Event) : (Events.single e).card = 1 := by cases e <;> rfl

lemma inter_eq_right {s m : Events} (h : ∀ e, m.has e = true → s.has e = true) : s.inter m = m := by
  refine Events.ext_has fun e => ?_
  rw [Events.has_inter]
  cases hm : m.has e <;> simp_all

/-- **What an operation other than `addEvent` does.** It leaves the slots alone, takes the events
`taken` out of the mask and off the count, and unless it is `delEvent` it hands the targets of
exactly these events to the scheduler. -/
theorem apply_taken {c : FdContext φ γ} {pending : ℕ} {op : Op N φ γ} {o : Outcome φ γ}
    (hop : op.isAdd = false) (h : op.apply c pending = .ok o) :
    o.ctx = { c with events := c.events.diff (op.taken c) } ∧
      o.pending = sizeDec^[(op.taken c).card] pending ∧
      o.targets = if op.isDel then [] else c.targets (op.taken c) := by
  have hunchanged : ∀ m : Events, m = .none →
      ({ ctx := c, pending := pending, ret := false } : Outcome φ γ).ctx =
          { c with events := c.events.diff m } ∧
        pending = sizeDec^[m.card] pending ∧ ([] : List (Target φ γ)) = c.targets m := by
    rintro m rfl
    exact ⟨by rw [Events.diff_none], rfl, rfl⟩
  cases op with
  | addEvent fd e func self => cases hop
  | delEvent fd e =>
      rcases delEvent_ok h with ⟨he, rfl⟩ | ⟨he, rfl⟩
      · obtain ⟨h₁, h₂, -⟩ := hunchanged _ (inter_single_of_not_has he)
        exact ⟨h₁, h₂, rfl⟩
      · rw [Op.taken, inter_single_of_has he, Events.diff_single, card_single]
        exact ⟨rfl, rfl, rfl⟩
  | cancelEvent fd e =>
      rcases cancelEvent_ok h with ⟨he, rfl⟩ | ⟨he, -, rfl⟩
      · exact hunchanged _ (inter_single_of_not_has he)
      · rw [Op.taken, inter_single_of_has he, Events.diff_single, card_single]
        exact ⟨rfl, rfl, (targets_single c e).symm⟩
  | cancelAll fd =>
      rcases cancelAll_ok h with ⟨he, rfl⟩ | ⟨-, -, rfl⟩
      · exact hunchanged _ he
      · exact ⟨rfl, rfl, rfl⟩
  | scheduleEvent fd r =>
      rcases scheduleEvent_ok h with ⟨he, rfl⟩ | ⟨-, hready, rfl⟩
      · exact hunchanged _ he
      · have hsub : c.events.inter (triggered c r) = triggered c r :=
          inter_eq_right fun e he => (hready e he).1
        simp only [Op.taken, hsub]
        exact ⟨rfl, rfl, rfl⟩

lemma taken_has {c : FdContext φ γ} {op : Op N φ γ} {e : Event} (h : (op.taken c).has e = true) :
    c.events.has e = true := by
  cases op with
  | addEvent => simp [Op.taken] at h
  | cancelAll => exact h
  | delEvent | cancelEvent | scheduleEvent =>
      rw [Op.taken, Events.has_inter, Bool.and_eq_true] at h
      exact h.1

lemma addEvent_apply_ok {c : FdContext φ γ} {pending : ℕ} {fd : Fin N} {e : Event}
    {func : Option γ} {self : φ} {o : Outcome φ γ}
    (h : (Op.addEvent fd e func self).apply c pending = .ok o) :
    c.events.has e = false ∧ c.getContext e = {} ∧
      o = { ctx := FdContext.setContext { c with events := c.events.add e } e (slotFor func self)
            pending := sizeInc pending, ret := true } := by
  simp only [Op.apply, Op.applyCtl, addEventTest] at h
  cases he : c.events.has e with
  | true => simp [he] at h
  | false =>
      simp only [he, Bool.false_eq_true, if_false] at h
      exact ⟨rfl, addEvent_ok h⟩

/-! ### One step -/

theorem step_addEvent {t t' : Traced N φ γ} {fd : Fin N} {e : Event} {func : Option γ} {self : φ}
    (ht : SlotsKept t) (h : t.step (.addEvent fd e func self) = some t') : SlotsKept t' := by
  simp only [Traced.step] at h
  split at h
  · cases h
  · rename_i o ho
    cases h
    obtain ⟨-, -, rfl⟩ := addEvent_apply_ok ho
    intro fd' e'
    by_cases hfd : fd' = fd
    · subst hfd
      simp only [Fds.put, Op.fd, Function.update_self, FdContext.setContext_events]
      by_cases hee : e' = e
      · subst hee
        simp only [FdContext.getContext_setContext_self, Function.update_self,
          Events.has_add_self, true_and]
        exact ⟨fun h => absurd h (by decide), fun _ => slotFor_one func self⟩
      · rw [FdContext.getContext_setContext_of_ne _ hee, Events.has_add_of_ne _ hee,
          FdContext.getContext_events, Function.update_of_ne hee]
        exact ht fd' e'
    · simp only [Fds.put, Op.fd, Function.update_of_ne hfd]
      exact ht fd' e'

lemma step_other {t t' : Traced N φ γ} {op : Op N φ γ} (hop : op.isAdd = false)
    (h : t.step op = some t') :
    ∃ o, op.apply (t.fds.ctx op.fd) t.fds.pending = .ok o ∧
      t' = { fds := t.fds.put op.fd o, latest := t.latest } := by
  simp only [Traced.step] at h
  split at h
  · cases h
  · rename_i o ho
    refine ⟨o, ho, ?_⟩
    cases op with
    | addEvent => cases hop
    | delEvent | cancelEvent | cancelAll | scheduleEvent => exact (Option.some.inj h).symm

theorem step_slotsKept {t t' : Traced N φ γ} {op : Op N φ γ} (ht : SlotsKept t)
    (hk : op.taken (t.fds.ctx op.fd) = .none) (h : t.step op = some t') : SlotsKept t' := by
  cases hop : op.isAdd with
  | true =>
      cases op with
      | addEvent fd e func self => exact step_addEvent ht h
      | delEvent | cancelEvent | cancelAll | scheduleEvent => cases hop
  | false =>
      obtain ⟨o, ho, rfl⟩ := step_other hop h
      obtain ⟨hctx, -, -⟩ := apply_taken hop ho
      rw [hk, Events.diff_none] at hctx
      have hsame : (t.fds.put op.fd o).ctx = t.fds.ctx := by simp [Fds.put, hctx]
      intro fd' e'
      simp only [hsame]
      exact ht fd' e'

theorem step_breaks {t t' : Traced N φ γ} {op : Op N φ γ} (ht : SlotsKept t)
    (hk : op.taken (t.fds.ctx op.fd) ≠ .none) (h : t.step op = some t') : ¬ SlotsKept t' := by
  have hop : op.isAdd = false := by
    cases op with
    | addEvent => exact absurd rfl hk
    | delEvent | cancelEvent | cancelAll | scheduleEvent => rfl
  obtain ⟨o, ho, rfl⟩ := step_other hop h
  obtain ⟨hctx, -, -⟩ := apply_taken hop ho
  obtain ⟨e, he⟩ : ∃ e, (op.taken (t.fds.ctx op.fd)).has e = true := by
    by_contra hn
    exact hk (Events.eq_none_iff.2 fun e => by simpa using fun he => hn ⟨e, he⟩)
  intro hkept
  have hgone : o.ctx.events.has e = false := by
    rw [hctx]
    simp only [Events.has_diff, he, Bool.not_true, Bool.and_false]
  have hempty := (hkept op.fd e).1 (by simpa [Fds.put] using hgone)
  simp only [Fds.put, Function.update_self, hctx, FdContext.getContext_events] at hempty
  obtain ⟨hslot, hsched, -⟩ := (ht op.fd e).2 (taken_has he)
  rw [← hslot, hempty] at hsched
  cases hsched

/-! ### Whole histories -/

/-- **The slots hold what they are meant to hold exactly until an event is taken.** As long as no
operation takes a registered event out of a mask, every slot is empty or holds the latest
registration, so `addEvent` succeeds on every event that is not registered. The first operation
that does take one ends this for good: the slot stays full. -/
theorem slots_kept_iff_nothing_taken :
    (∀ t : Traced N φ γ, Reach Traced.step (fun t op => op.taken (t.fds.ctx op.fd) = .none) {} t →
      SlotsKept t ∧ ∀ fd e func self, (t.fds.ctx fd).events.has e = false →
        (t.step (.addEvent fd e func self)).isSome) ∧
    (∀ (t t' : Traced N φ γ) (op : Op N φ γ), SlotsKept t → t.step op = some t' →
      (SlotsKept t' ↔ op.taken (t.fds.ctx op.fd) = .none)) := by
  refine ⟨fun t ht => ?_, fun t t' op ht hs => ⟨fun ht' => ?_, fun hk => step_slotsKept ht hk hs⟩⟩
  · have hkept : SlotsKept t :=
      ht.inv (fun fd e => ⟨fun _ => by cases e <;> rfl, fun h => by cases e <;> cases h⟩)
        fun _ hi hg hs => step_slotsKept hi hg hs
    refine ⟨hkept, fun fd e func self he => ?_⟩
    have hslot := (hkept fd e).1 he
    cases func <;>
      simp [Traced.step, Op.apply, Op.applyCtl, Op.fd, addEventTest, he, IOManager.addEvent, hslot,
        EventContext.isEmpty]
  · by_contra hk
    exact step_breaks ht hk hs ht'

/-- Registering, a report of the event, and the slot afterwards: the event is gone from the mask,
and registering it again fails. -/
theorem slot_full_after_report :
    ∃ t : Traced 1 ℕ String, Reach Traced.step Free {} t ∧
      (t.fds.ctx 0).events.has .read = false ∧ (t.fds.ctx 0).getContext .read ≠ {} ∧
      t.step (.addEvent 0 .read none 7) = none := by
  have h : (run Traced.step (fun _ _ => true) ({} : Traced 1 ℕ String)
      [.addEvent 0 .read none 7, .scheduleEvent 0 ⟨⟨true, false⟩, false⟩]).any (fun t =>
        !(t.fds.ctx 0).events.has .read && (t.fds.ctx 0).getContext .read != {} &&
        (t.step (.addEvent 0 .read none 7)).isNone) = true := by decide
  obtain ⟨t, ht, hp⟩ := exists_reach_of_run (G := Free) (fun _ _ _ => trivial) h
  simp only [Bool.and_eq_true, Bool.not_eq_true', bne_iff_ne, Option.isNone_iff_eq_none] at hp
  exact ⟨t, ht, hp.1.1, hp.1.2, hp.2⟩

end Eva01.IOManager
