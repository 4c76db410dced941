import Mathlib

/-!
The descriptor contexts of `IOManager`: the mask of registered events, the two slots that say whom
to wake, and the sections of `addEvent`, `delEvent`, `cancelEvent`, `cancelAll` and `scheduleEvent`
that run under `fd_ctx->mtx`.

A section works on one context and on `m_pending_count`; what it hands to the scheduler comes out
as a list of targets, in the order of the `schedule` calls. The result of the `epoll_ctl` call of
the section is an argument, and the request the section makes of it is a function of its own. An
`ASSERT` that fails ends the process: the section then has no result but the name of the assertion.

`READ` and `WRITE` have the bits of `EPOLLIN` and `EPOLLOUT`, so masks are kept as a pair of bits
and passed between the two enumerations unchanged.

Types: `φ` for the fibers, `γ` for the functions a slot may hold.
-/

namespace Eva01.IOManager

/-! ### Events and masks -/

inductive Event
  | read
  | write
  deriving DecidableEq, Repr

/-- A set of events: `NONE`, `READ`, `WRITE` or both. -/
structure Events where
  read : Bool := false
  write : Bool := false
  deriving DecidableEq, Repr

namespace Events

def none : Events := {}

def has (s : Events) : Event → Bool
  | .read => s.read
  | .write => s.write

/-- `events | event` -/
def add (s : Events) : Event → Events
  | .read => { s with read := true }
  | .write => { s with write := true }

/-- `events & ~event` -/
def sub (s : Events) : Event → Events
  | .read => { s with read := false }
  | .write => { s with write := false }

/-- `a & b` -/
def inter (a b : Events) : Events := ⟨a.read && b.read, a.write && b.write⟩

/-- `a & ~b` -/
def diff (a b : Events) : Events := ⟨a.read && !b.read, a.write && !b.write⟩

def single (e : Event) : Events := none.add e

/-- The events of a set, in the order in which they are fired. -/
def toList (s : Events) : List Event :=
  (if s.read then [.read] else []) ++ (if s.write then [.write] else [])

/-- The number of bits set. -/
def card (s : Events) : ℕ := s.read.toNat + s.write.toNat

@[simp] lemma has_none (e : Event) : none.has e = false := by cases e <;> rfl

@[simp] lemma has_add_self (s : Events) (e : Event) : (s.add e).has e = true := by cases e <;> rfl

@[simp] lemma has_sub_self (s : Events) (e : Event) : (s.sub e).has e = false := by cases e <;> rfl

lemma has_add_of_ne (s : Events) {e e' : Event} (h : e' ≠ e) : (s.add e).has e' = s.has e' := by
  cases e <;> cases e' <;> first | rfl | exact absurd rfl h

lemma has_sub_of_ne (s : Events) {e e' : Event} (h : e' ≠ e) : (s.sub e).has e' = s.has e' := by
  cases e <;> cases e' <;> first | rfl | exact absurd rfl h

lemma has_inter (a b : Events) (e : Event) : (a.inter b).has e = (a.has e && b.has e) := by
  cases e <;> rfl

lemma ext_has {a b : Events} (h : ∀ e, a.has e = b.has e) : a = b := by
  obtain ⟨r, w⟩ := a
  obtain ⟨r', w'⟩ := b
  have hr : r = r' := h .read
  have hw : w = w' := h .write
  rw [hr, hw]

lemma eq_none_iff {s : Events} : s = none ↔ ∀ e, s.has e = false :=
  ⟨fun h e => by rw [h, has_none], fun h => ext_has fun e => by rw [h, has_none]⟩

lemma has_diff (a b : Events) (e : Event) : (a.diff b).has e = (a.has e && !b.has e) := by
  cases e <;> rfl

lemma has_single (e e' : Event) : (single e).has e' = decide (e' = e) := by
  cases e <;> cases e' <;> rfl

lemma diff_self (s : Events) : s.diff s = none :=
  eq_none_iff.2 fun e => by rw [has_diff]; simp

lemma diff_none (s : Events) : s.diff none = s := ext_has fun e => by rw [has_diff]; simp

lemma diff_single (s : Events) (e : Event) : s.diff (single e) = s.sub e := by
  obtain ⟨r, w⟩ := s
  cases e <;> cases r <;> cases w <;> rfl

lemma card_add {s : Events} {e : Event} (h : s.has e = false) : (s.add e).card = s.card + 1 := by
  obtain ⟨r, w⟩ := s
  cases e <;> cases r <;> cases w <;> first | rfl | cases h

lemma card_diff {s m : Events} (h : ∀ e, m.has e = true → s.has e = true) :
    (s.diff m).card + m.card = s.card := by
  obtain ⟨r, w⟩ := s
  obtain ⟨r', w'⟩ := m
  have hr := h .read
  have hw := h .write
  cases r <;> cases w <;> cases r' <;> cases w' <;> simp_all [has, diff, card]

lemma card_le (s : Events) : s.card ≤ 2 := by
  obtain ⟨r, w⟩ := s
  cases r <;> cases w <;> decide

end Events

/-! ### Contexts -/

/-- `FdContext::EventContext`: the scheduler (only whether the pointer is null matters), and the
fiber or the function to schedule. -/
structure EventContext (φ γ : Type*) where
  scheduler : Bool := false
  fiber : Option φ := none
  func : Option γ := none
  deriving DecidableEq, Repr

/-- `FdContext`. The source does not initialise `events`; the value here is that of a context which
starts with `NONE`, and where a context may start with any mask it is given. -/
structure FdContext (φ γ : Type*) where
  read : EventContext φ γ := {}
  write : EventContext φ γ := {}
  events : Events := {}
  deriving DecidableEq, Repr

/-- What is handed to `Scheduler::schedule`. -/
inductive Target (φ γ : Type*)
  | fiber (f : φ)
  | func (g : γ)
  deriving DecidableEq, Repr

/-- The assertions of the event operations. -/
inductive Assertion
  /-- `addEvent`: the event is already registered. -/
  | eventExists
  /-- `addEvent`, `delEvent`, `cancelEvent`: `ASSERT(!rt)`. -/
  | epollCtl
  /-- `addEvent`: the slot of the event is not empty. -/
  | slotBusy
  /-- `addEvent`: the registering fiber is not `RUNNING`. -/
  | notRunning
  /-- `FdContext::scheduleEvent`: `ASSERT(events & event)`. -/
  | notRegistered
  /-- `FdContext::scheduleEvent`: neither function nor fiber. -/
  | noTarget
  /-- `FdContext::scheduleEvent`: a call through a null scheduler. -/
  | nullScheduler
  /-- `cancelAll`: `ASSERT(fd_ctx->events == 0)`. -/
  | eventsLeft
  deriving DecidableEq, Repr

variable {φ γ : Type*}

/-- The slot is empty: no scheduler, no fiber, no function. -/
def EventContext.isEmpty (x : EventContext φ γ) : Bool :=
  !x.scheduler && x.fiber.isNone && x.func.isNone

lemma EventContext.isEmpty_iff {x : EventContext φ γ} : x.isEmpty = true ↔ x = {} := by
  obtain ⟨s, f, g⟩ := x
  cases s <;> cases f <;> cases g <;> simp [isEmpty]

namespace FdContext

/-- `getContext(event)`, read. -/
def getContext (c : FdContext φ γ) : Event → EventContext φ γ
  | .read => c.read
  | .write => c.write

/-- Writing through the reference that `getContext(event)` returns. -/
def setContext (c : FdContext φ γ) (e : Event) (x : EventContext φ γ) : FdContext φ γ :=
  match e with
  | .read => { c with read := x }
  | .write => { c with write := x }

@[simp] lemma setContext_events (c : FdContext φ γ) (e : Event) (x : EventContext φ γ) :
    (c.setContext e x).events = c.events := by cases e <;> rfl

@[simp] lemma getContext_setContext_self (c : FdContext φ γ) (e : Event) (x : EventContext φ γ) :
    (c.setContext e x).getContext e = x := by cases e <;> rfl

lemma getContext_setContext_of_ne (c : FdContext φ γ) {e e' : Event} (h : e' ≠ e)
    (x : EventContext φ γ) : (c.setContext e x).getContext e' = c.getContext e' := by
  cases e <;> cases e' <;> first | rfl | exact absurd rfl h

@[simp] lemma getContext_events (c : FdContext φ γ) (m : Events) (e : Event) :
    FdContext.getContext { c with events := m } e = c.getContext e := by cases e <;> rfl

/-- `resetContext(event)`. The slot is bound by `auto`, so it is a copy that is cleared, and the
context keeps its slot. -/
def resetContext (c : FdContext φ γ) (e : Event) : FdContext φ γ :=
  let eventCtx := c.getContext e
  let _cleared : EventContext φ γ := { eventCtx with fiber := none, func := none, scheduler := false }
  c

/-- `FdContext::scheduleEvent(event)`: the event leaves the mask and its slot is handed to the
scheduler, the function first. The slot is a copy here too, so its scheduler is not cleared. -/
def scheduleEvent (c : FdContext φ γ) (e : Event) :
    Except Assertion (FdContext φ γ × Target φ γ) :=
  if c.events.has e then
    let c := { c with events := c.events.sub e }
    let eventCtx := c.getContext e
    let _cleared : EventContext φ γ := { eventCtx with scheduler := false }
    match eventCtx.func, eventCtx.fiber with
    | some g, _ => if eventCtx.scheduler then .ok (c, .func g) else .error .nullScheduler
    | none, some f => if eventCtx.scheduler then .ok (c, .fiber f) else .error .nullScheduler
    | none, none => .error .noTarget
  else .error .notRegistered

end FdContext

/-! ### The sections -/

/-- `++` on a `size_t`, which wraps around. -/
@[irreducible] def sizeInc (x : ℕ) : ℕ := if x + 1 = 2 ^ 64 then 0 else x + 1

/-- `--` on a `size_t`, which wraps around. -/
@[irreducible] def sizeDec (x : ℕ) : ℕ := if x = 0 then 2 ^ 64 - 1 else x - 1

lemma sizeInc_of_lt {x : ℕ} (h : x + 1 < 2 ^ 64) : sizeInc x = x + 1 := by
  unfold sizeInc
  exact if_neg (by omega)

lemma sizeDec_of_pos {x : ℕ} (h : 0 < x) : sizeDec x = x - 1 := by
  unfold sizeDec
  exact if_neg (by omega)

/-- What a section leaves: the context, `m_pending_count`, the targets scheduled, and the value
returned. -/
structure Outcome (φ γ : Type*) where
  ctx : FdContext φ γ
  pending : ℕ
  targets : List (Target φ γ) := []
  ret : Bool
  deriving DecidableEq, Repr

/-- The operations of `epoll_ctl`. -/
inductive EpollOp
  | add
  | mod
  | del
  deriving DecidableEq, Repr

/-- `op = left ? EPOLL_CTL_MOD : EPOLL_CTL_DEL`, with the mask that goes with it. -/
def leaveRequest (left : Events) : EpollOp × Events := (if left = .none then .del else .mod, left)

/-- The request of `addEvent`. -/
def addRequest (c : FdContext φ γ) (e : Event) : EpollOp × Events :=
  (if c.events = .none then .add else .mod, c.events.add e)

/-- The test of `addEvent` made before the lock is taken. -/
def addEventTest (c : FdContext φ γ) (e : Event) : Except Assertion Unit :=
  if c.events.has e then .error .eventExists else .ok ()

/-- The section of `addEvent`, called by the fiber `self` of a worker. -/
def addEvent (c : FdContext φ γ) (pending : ℕ) (e : Event) (func : Option γ) (self : φ)
    (running rt : Bool) : Except Assertion (Outcome φ γ) :=
  if !rt then .error .epollCtl
  else
    let c := { c with events := c.events.add e }
    if !(c.getContext e).isEmpty then .error .slotBusy
    else
      match func with
      | some g =>
          .ok { ctx := c.setContext e { scheduler := true, func := some g }
                pending := sizeInc pending, ret := true }
      | none =>
          if running then
            .ok { ctx := c.setContext e { scheduler := true, fiber := some self }
                  pending := sizeInc pending, ret := true }
          else .error .notRunning

/-- The section of `delEvent`. -/
def delEvent (c : FdContext φ γ) (pending : ℕ) (e : Event) (rt : Bool) :
    Except Assertion (Outcome φ γ) :=
  if !c.events.has e then .ok { ctx := c, pending := pending, ret := false }
  else if !rt then .error .epollCtl
  else
    let c := { c with events := c.events.sub e }
    .ok { ctx := c.resetContext e, pending := sizeDec pending, ret := true }

/-- `fd_ctx->scheduleEvent(event)` together with the `--m_pending_count` beside it. -/
def fire (o : Outcome φ γ) (e : Event) : Except Assertion (Outcome φ γ) :=
  match o.ctx.scheduleEvent e with
  | .error a => .error a
  | .ok (c, t) =>
      .ok { ctx := c, pending := sizeDec o.pending, targets := o.targets ++ [t], ret := o.ret }

/-- The section of `cancelEvent`. -/
def cancelEvent (c : FdContext φ γ) (pending : ℕ) (e : Event) (rt : Bool) :
    Except Assertion (Outcome φ γ) :=
  if !c.events.has e then .ok { ctx := c, pending := pending, ret := false }
  else if !rt then .error .epollCtl
  else fire { ctx := c, pending := pending, ret := true } e

/-- `if (mask & event) fire`, as in `cancelAll` and `scheduleEvent`. -/
def fireIf (b : Bool) (o : Outcome φ γ) (e : Event) : Except Assertion (Outcome φ γ) :=
  if b then fire o e else .ok o

/-- The section of `cancelAll`. Each event is tested against the context before it is fired. -/
def cancelAll (c : FdContext φ γ) (pending : ℕ) (rt : Bool) : Except Assertion (Outcome φ γ) :=
  if c.events = .none then .ok { ctx := c, pending := pending, ret := false }
  else if !rt then .ok { ctx := c, pending := pending, ret := false }
  else
    match fireIf (c.events.has .read) { ctx := c, pending := pending, ret := true } .read with
    | .error a => .error a
    | .ok o =>
        match fireIf (o.ctx.events.has .write) o .write with
        | .error a => .error a
        | .ok o => if o.ctx.events = .none then .ok o else .error .eventsLeft

/-- An entry of the array filled by `epoll_wait`: the bits `EPOLLIN` and `EPOLLOUT`, and whether
`EPOLLHUP` or `EPOLLERR` is among the others. -/
structure Report where
  events : Events
  error : Bool := false
  deriving DecidableEq, Repr

/-- `triggered_events`: on an error or a hang-up, everything registered. -/
def triggered (c : FdContext φ γ) (r : Report) : Events := if r.error then c.events else r.events

/-- The section of `scheduleEvent`. Unlike in `cancelAll` it is the reported mask, not the context,
that decides which events are fired. -/
def scheduleEvent (c : FdContext φ γ) (pending : ℕ) (r : Report) (rt : Bool) :
    Except Assertion (Outcome φ γ) :=
  let trig := triggered c r
  if c.events.inter trig = .none then .ok { ctx := c, pending := pending, ret := false }
  else if !rt then .ok { ctx := c, pending := pending, ret := false }
  else
    match fireIf (trig.has .read) { ctx := c, pending := pending, ret := true } .read with
    | .error a => .error a
    | .ok o => fireIf (trig.has .write) o .write

/-! ### What the sections do -/

/-- What a non-empty slot hands to the scheduler. -/
def EventContext.target (x : EventContext φ γ) : Option (Target φ γ) :=
  match x.func, x.fiber with
  | some g, _ => some (.func g)
  | none, some f => some (.fiber f)
  | none, none => none

/-- A slot that holds a scheduler and something to schedule. -/
def EventContext.Armed (x : EventContext φ γ) : Prop := x.scheduler = true ∧ x.target.isSome

/-- **Firing.** It succeeds only on a registered event with an armed slot, takes the event out of
the mask, leaves the slots, and schedules the target of the slot. -/
theorem fire_ok {o o' : Outcome φ γ} {e : Event} (h : fire o e = .ok o') :
    o.ctx.events.has e = true ∧ (o.ctx.getContext e).Armed ∧
      o' = { ctx := { o.ctx with events := o.ctx.events.sub e }, pending := sizeDec o.pending,
             targets := o.targets ++ (o.ctx.getContext e).target.toList, ret := o.ret } := by
  unfold fire FdContext.scheduleEvent at h
  by_cases he : o.ctx.events.has e = true
  · simp only [he, if_true, FdContext.getContext_events] at h
    cases hx : o.ctx.getContext e with
    | mk s f g =>
        simp only [hx] at h
        cases g <;> cases f <;> cases s <;> simp at h
        all_goals subst h; simp [he, EventContext.Armed, EventContext.target]
  · simp [he] at h

theorem fire_of_armed {o : Outcome φ γ} {e : Event} (he : o.ctx.events.has e = true)
    (ha : (o.ctx.getContext e).Armed) :
    fire o e = .ok
      { ctx := { o.ctx with events := o.ctx.events.sub e }, pending := sizeDec o.pending,
        targets := o.targets ++ (o.ctx.getContext e).target.toList, ret := o.ret } := by
  unfold fire FdContext.scheduleEvent
  simp only [he, if_true, FdContext.getContext_events]
  cases hx : o.ctx.getContext e with
  | mk s f g =>
      rw [hx] at ha
      obtain ⟨hs, ht⟩ := ha
      cases g <;> cases f <;> simp_all [EventContext.target]

/-- The targets of the slots of the events in `m`, in the order they are fired in. -/
def FdContext.targets (c : FdContext φ γ) (m : Events) : List (Target φ γ) :=
  (if m.read then c.read.target.toList else []) ++ (if m.write then c.write.target.toList else [])

lemma mem_targets {c : FdContext φ γ} {m : Events} {e : Event} {T : Target φ γ} (hm : m.has e = true)
    (ht : (c.getContext e).target = some T) : T ∈ c.targets m := by
  cases e with
  | read =>
      have hr : c.read.target = some T := ht
      have hm' : m.read = true := hm
      simp [FdContext.targets, hr, hm']
  | write =>
      have hw : c.write.target = some T := ht
      have hm' : m.write = true := hm
      simp [FdContext.targets, hw, hm']

/-- The events of `m` are registered in `c`, and their slots are armed. -/
def FdContext.Ready (c : FdContext φ γ) (m : Events) : Prop :=
  ∀ e, m.has e = true → c.events.has e = true ∧ (c.getContext e).Armed

/-- The context and the count after the events of `m` have been fired. -/
def fired (c : FdContext φ γ) (pending : ℕ) (m : Events) : Outcome φ γ :=
  { ctx := { c with events := c.events.diff m }, pending := sizeDec^[m.card] pending
    targets := c.targets m, ret := true }

/-- The two tests and calls at the end of `scheduleEvent`, for the mask `m`. -/
def fireBoth (c : FdContext φ γ) (pending : ℕ) (m : Events) : Except Assertion (Outcome φ γ) :=
  match fireIf (m.has .read) { ctx := c, pending := pending, ret := true } .read with
  | .error a => .error a
  | .ok o => fireIf (m.has .write) o .write

theorem fireBoth_ok {c : FdContext φ γ} {pending : ℕ} {m : Events} {o : Outcome φ γ}
    (h : fireBoth c pending m = .ok o) : c.Ready m ∧ o = fired c pending m := by
  obtain ⟨r, w⟩ := m
  unfold fireBoth fireIf at h
  cases r with
  | false =>
      cases w with
      | false =>
          simp only [Events.has, Bool.false_eq_true, if_false, Except.ok.injEq] at h
          subst h
          refine ⟨fun e he => (by cases e <;> cases he), ?_⟩
          simp [fired, FdContext.targets, Events.diff, Events.card]
      | true =>
          simp only [Events.has, Bool.false_eq_true, if_false, if_true] at h
          obtain ⟨he, ha, rfl⟩ := fire_ok h
          refine ⟨fun e hm => (by cases e <;> first | exact ⟨he, ha⟩ | cases hm), ?_⟩
          simp [fired, FdContext.targets, FdContext.getContext, Events.diff, Events.card, Events.sub]
  | true =>
      simp only [Events.has, if_true] at h
      cases h₁ : fire ({ ctx := c, pending := pending, ret := true } : Outcome φ γ) .read with
      | error a => simp [h₁] at h
      | ok o₁ =>
          obtain ⟨he₁, ha₁, rfl⟩ := fire_ok h₁
          simp only [h₁] at h
          cases w with
          | false =>
              simp only [Bool.false_eq_true, if_false, Except.ok.injEq] at h
              subst h
              refine ⟨fun e hm => (by cases e <;> first | exact ⟨he₁, ha₁⟩ | cases hm), ?_⟩
              simp [fired, FdContext.targets, FdContext.getContext, Events.diff, Events.card,
                Events.sub]
          | true =>
              simp only [if_true] at h
              obtain ⟨he, ha, rfl⟩ := fire_ok h
              simp only [FdContext.getContext_events] at ha
              refine ⟨fun e _ => (by cases e; exacts [⟨he₁, ha₁⟩, ⟨he, ha⟩]), ?_⟩
              simp [fired, FdContext.targets, FdContext.getContext, Events.diff, Events.card,
                Events.sub]

theorem fireBoth_of_ready {c : FdContext φ γ} {m : Events} (h : c.Ready m) (pending : ℕ) :
    fireBoth c pending m = .ok (fired c pending m) := by
  cases hf : fireBoth c pending m with
  | ok o => rw [(fireBoth_ok hf).2]
  | error a =>
      exfalso
      obtain ⟨r, w⟩ := m
      unfold fireBoth fireIf at hf
      cases r with
      | false =>
          cases w with
          | false => simp [Events.has] at hf
          | true =>
              obtain ⟨he, ha⟩ := h .write rfl
              rw [show (Events.mk false true).has .read = false from rfl,
                show (Events.mk false true).has .write = true from rfl] at hf
              simp [fire_of_armed (o := { ctx := c, pending := pending, ret := true }) he ha] at hf
      | true =>
          obtain ⟨he₁, ha₁⟩ := h .read rfl
          rw [show (Events.mk true w).has .read = true from rfl] at hf
          simp only [if_true,
            fire_of_armed (o := { ctx := c, pending := pending, ret := true }) he₁ ha₁] at hf
          cases w with
          | false => simp [Events.has] at hf
          | true =>
              obtain ⟨he, ha⟩ := h .write rfl
              rw [show (Events.mk true true).has .write = true from rfl] at hf
              simp only [if_true] at hf
              rw [fire_of_armed (by exact he) (by simpa using ha)] at hf
              cases hf

lemma scheduleEvent_eq (c : FdContext φ γ) (pending : ℕ) (r : Report) :
    scheduleEvent c pending r true =
      if c.events.inter (triggered c r) = .none then
        .ok { ctx := c, pending := pending, ret := false }
      else fireBoth c pending (triggered c r) := rfl

/-- **A report, handled.** It either finds nothing registered and changes nothing, or fires every
event of the mask, all of which are then registered. -/
theorem scheduleEvent_ok {c : FdContext φ γ} {pending : ℕ} {r : Report} {o : Outcome φ γ}
    (h : scheduleEvent c pending r true = .ok o) :
    (c.events.inter (triggered c r) = .none ∧ o = { ctx := c, pending := pending, ret := false }) ∨
    (c.events.inter (triggered c r) ≠ .none ∧ c.Ready (triggered c r) ∧
      o = fired c pending (triggered c r)) := by
  rw [scheduleEvent_eq] at h
  split at h
  · rename_i hn
    cases h
    exact .inl ⟨hn, rfl⟩
  · rename_i hn
    exact .inr ⟨hn, fireBoth_ok h⟩

/-- `cancelAll` fires exactly what is registered, so its last assertion cannot fail. -/
theorem cancelAll_eq (c : FdContext φ γ) (pending : ℕ) :
    cancelAll c pending true =
      if c.events = .none then .ok { ctx := c, pending := pending, ret := false }
      else fireBoth c pending c.events := by
  unfold cancelAll fireBoth
  split
  · rfl
  · simp only [Bool.not_true, Bool.false_eq_true, if_false]
    cases hr : fireIf (c.events.has .read)
        ({ ctx := c, pending := pending, ret := true } : Outcome φ γ) .read with
    | error a => rfl
    | ok o =>
        -- firing `READ` does not touch the bit of `WRITE`
        have hw : o.ctx.events.has .write = c.events.has .write ∧
            o.ctx.events.has .read = false := by
          unfold fireIf at hr
          split at hr
          · obtain ⟨-, -, rfl⟩ := fire_ok hr
            exact ⟨Events.has_sub_of_ne c.events (show Event.write ≠ .read by decide),
              Events.has_sub_self c.events .read⟩
          · rename_i hread
            cases hr
            exact ⟨rfl, by simpa using hread⟩
        simp only [hw.1]
        cases hw' : fireIf (c.events.has .write) o .write with
        | error a => rfl
        | ok o' =>
            have hnone : o'.ctx.events = .none := by
              refine Events.eq_none_iff.2 fun e => ?_
              unfold fireIf at hw'
              split at hw'
              · obtain ⟨-, -, rfl⟩ := fire_ok hw'
                cases e
                · exact (Events.has_sub_of_ne _ (show Event.read ≠ .write by decide)).trans hw.2
                · exact Events.has_sub_self o.ctx.events .write
              · rename_i hwrite
                cases hw'
                cases e
                · exact hw.2
                · exact hw.1.trans (by simpa using hwrite)
            simp [hnone]

theorem cancelAll_ok {c : FdContext φ γ} {pending : ℕ} {o : Outcome φ γ}
    (h : cancelAll c pending true = .ok o) :
    (c.events = .none ∧ o = { ctx := c, pending := pending, ret := false }) ∨
    (c.events ≠ .none ∧ c.Ready c.events ∧ o = fired c pending c.events) := by
  rw [cancelAll_eq] at h
  split at h
  · rename_i hn
    cases h
    exact .inl ⟨hn, rfl⟩
  · rename_i hn
    exact .inr ⟨hn, fireBoth_ok h⟩

theorem cancelEvent_ok {c : FdContext φ γ} {pending : ℕ} {e : Event} {o : Outcome φ γ}
    (h : cancelEvent c pending e true = .ok o) :
    (c.events.has e = false ∧ o = { ctx := c, pending := pending, ret := false }) ∨
    (c.events.has e = true ∧ (c.getContext e).Armed ∧
      o = { ctx := { c with events := c.events.sub e }, pending := sizeDec pending,
            targets := (c.getContext e).target.toList, ret := true }) := by
  unfold cancelEvent at h
  cases he : c.events.has e with
  | false =>
      simp only [he, Bool.not_false, if_true, Except.ok.injEq] at h
      exact .inl ⟨rfl, h.symm⟩
  | true =>
      simp only [he, Bool.not_true, Bool.false_eq_true, if_false] at h
      obtain ⟨-, ha, rfl⟩ := fire_ok h
      exact .inr ⟨rfl, ha, by simp⟩

theorem delEvent_ok {c : FdContext φ γ} {pending : ℕ} {e : Event} {o : Outcome φ γ}
    (h : delEvent c pending e true = .ok o) :
    (c.events.has e = false ∧ o = { ctx := c, pending := pending, ret := false }) ∨
    (c.events.has e = true ∧
      o = { ctx := { c with events := c.events.sub e }, pending := sizeDec pending, ret := true }) := by
  unfold delEvent at h
  cases he : c.events.has e with
  | false =>
      simp only [he, Bool.not_false, if_true, Except.ok.injEq] at h
      exact .inl ⟨rfl, h.symm⟩
  | true =>
      simp only [he, Bool.not_true, Bool.false_eq_true, if_false, Except.ok.injEq] at h
      exact .inr ⟨rfl, h.symm⟩

/-- The slot `addEvent` writes: the function if there is one, else the calling fiber. -/
def slotFor (func : Option γ) (self : φ) : EventContext φ γ :=
  match func with
  | some g => { scheduler := true, func := some g }
  | none => { scheduler := true, fiber := some self }

lemma slotFor_armed (func : Option γ) (self : φ) : (slotFor func self).Armed := by
  cases func <;> exact ⟨rfl, rfl⟩

lemma slotFor_ne_empty (func : Option γ) (self : φ) : slotFor func self ≠ {} := by
  cases func <;> simp [slotFor]

theorem addEvent_ok {c : FdContext φ γ} {pending : ℕ} {e : Event} {func : Option γ} {self : φ}
    {running : Bool} {o : Outcome φ γ} (h : addEvent c pending e func self running true = .ok o) :
    c.getContext e = {} ∧
      o = { ctx := FdContext.setContext { c with events := c.events.add e } e (slotFor func self)
            pending := sizeInc pending, ret := true } := by
  unfold addEvent at h
  simp only [Bool.not_true, Bool.false_eq_true, if_false, FdContext.getContext_events] at h
  split at h
  · cases h
  · rename_i hempty
    have hslot : c.getContext e = {} := EventContext.isEmpty_iff.1 (by simpa using hempty)
    cases func with
    | some g =>
        simp only [Except.ok.injEq] at h
        exact ⟨hslot, h.symm⟩
    | none =>
        simp only at h
        split at h
        · simp only [Except.ok.injEq] at h
          exact ⟨hslot, h.symm⟩
        · cases h

end Eva01.IOManager
