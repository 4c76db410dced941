import Eva01.Lib.Runs
import Eva01.Runtime.State

/-!
The fibers of one thread, and the switches between them: `Fiber::call`, `Yield`, `YieldReady`, `reset`
and `MainFunc`.

The code of the fibers is a parameter: `κ` is the type of points in it, and a program says what is
done at each (`Op`). What `swapcontext` saves is a continuation (`Cont`): the fiber whose code is
executed and the point it goes on at, or one of the two ends of `MainFunc`. Fiber 0 is the main fiber
of the thread. Who executes is a matter of the continuations alone (`Control`); `t_fiber` is what the
functions believe about it.

`call` saves the caller in the context of the main fiber, whoever calls. So if a sub-fiber calls
another, the main fiber's own position is gone, the next yield comes back to that sub-fiber with
`t_fiber` at the main fiber, and its yields do nothing from then on. And `call` takes a fiber that has
ended with an exception, whose continuation is the end of `MainFunc`: there the thread ends. As long
as neither happens, `t_fiber` is the fiber that executes, and who yields or ends gives control to the
main fiber (`current_fiber_iff_main_calls`).

Types: `κ` for the points of the code, `ℓ` for what is seen of the work done there.
-/

namespace Eva01.Fibers

open Eva01.Lib.Runs
open Eva01.Runtime (State)

/-! ### Code and continuations -/

/-- What the code of a fiber does at a point, and where it goes on. -/
inductive Op (κ ℓ : Type*)
  /-- Anything but a switch. -/
  | work (a : ℓ) (next : κ)
  /-- `new Fiber(g, is_main)` -/
  | make (g : κ) (isMain : Bool) (next : ℕ → κ)
  | call (f : ℕ) (next : κ)
  | reset (f : ℕ) (g : Option κ) (next : κ)
  /-- `Fiber::Yield()` -/
  | yield (next : κ)
  /-- `Fiber::YieldReady()` -/
  | yieldReady (next : κ)
  | ret
  /-- A `std::exception` leaves the function. -/
  | throw

/-- A continuation, as it is saved in an `m_ctx`. -/
inductive Cont (κ : Type*)
  /-- The start of `MainFunc`, from `makecontext`. -/
  | entry
  /-- In the code of the fiber `f`, behind a `swapcontext`. -/
  | at (f : ℕ) (k : κ)
  /-- In the `MainFunc` of `f`, behind its `yield()`. -/
  | last (f : ℕ)
  deriving DecidableEq, Repr

/-- What the thread executes. -/
inductive Control (κ : Type*)
  /-- The code of the fiber `f`, at the point `k`. -/
  | code (f : ℕ) (k : κ)
  /-- `MainFunc` of `f`, whose function has ended; before `m_state` is written. -/
  | finish (f : ℕ) (st : State)
  /-- `MainFunc` of `f`, behind its `yield()`. -/
  | behind (f : ℕ)
  /-- The thread has ended, in `f`. -/
  | exited (f : ℕ)
  /-- An assertion has failed, or an exception was not caught. -/
  | aborted
  deriving DecidableEq, Repr

structure Fiber (κ : Type*) where
  state : State := .ready
  ctx : Cont κ := .entry
  func : Option κ := none
  /-- `m_main` -/
  main : Bool := false
  /-- `uc_link` is the context of the main fiber, and not null. -/
  linked : Bool := false

/-- The fibers, `t_fiber`, and what the code did so far. -/
structure Thread (κ ℓ : Type*) where
  fibers : ℕ → Fiber κ
  nextFiber : ℕ := 1
  tFiber : ℕ := 0
  control : Control κ
  /-- The code of the main fiber is run by `MainFunc`: the fiber was reset, and entered. -/
  mainFunc : Bool := false
  trace : List (ℕ × ℓ) := []

variable {κ ℓ : Type*}

namespace Thread

def update (s : Thread κ ℓ) (f : ℕ) (change : Fiber κ → Fiber κ) : Thread κ ℓ :=
  { s with fibers := Function.update s.fibers f (change (s.fibers f)) }

def setState (s : Thread κ ℓ) (f : ℕ) (st : State) : Thread κ ℓ :=
  s.update f fun fb => { fb with state := st }

/-- A continuation goes on. `MainFunc` starts with `GetThis()`, so it runs the function of `t_fiber`;
to call an empty one throws. -/
def resume (s : Thread κ ℓ) (c : Cont κ) : Thread κ ℓ :=
  { s with
    control :=
      match c with
      | .entry =>
          match (s.fibers s.tFiber).func with
          | some k => .code s.tFiber k
          | none => .finish s.tFiber .except
      | .at f k => .code f k
      | .last f => .behind f
    mainFunc :=
      match c with
      | .entry => s.mainFunc || s.tFiber == 0
      | .at _ _ | .last _ => s.mainFunc }

/-- `swapcontext(&a->m_ctx, &b->m_ctx)`, with the continuation that is saved. -/
def swap (s : Thread κ ℓ) (a : ℕ) (here : Cont κ) (b : ℕ) : Thread κ ℓ :=
  let s := s.update a fun fb => { fb with ctx := here }
  s.resume (s.fibers b).ctx

/-- `g->call()`, in the code of `f`. -/
def call (s : Thread κ ℓ) (f g : ℕ) (next : κ) : Thread κ ℓ :=
  if (s.fibers g).main = true ∧ s.tFiber = 0 then { s with control := .code f next }
  else
    let s := { s with tFiber := g }
    if (s.fibers g).state = .running ∨ (s.fibers g).state = .term then { s with control := .aborted }
    else (s.setState g .running).swap 0 (.at f next) g

/-- `Yield()` and `YieldReady()`, in the code of `f`. -/
def yieldAs (s : Thread κ ℓ) (st : State) (f : ℕ) (next : κ) : Thread κ ℓ :=
  if s.tFiber = 0 then { s with control := .code f next }
  else
    let cur := s.tFiber
    swap { s.setState cur st with tFiber := 0 } cur (.at f next) 0

/-- The end of `MainFunc`: the state, and `raw_ptr->yield()`. -/
def finish (s : Thread κ ℓ) (f : ℕ) (st : State) : Thread κ ℓ :=
  let s := s.setState f st
  if s.tFiber = 0 then { s with control := .behind f }
  else swap { s with tFiber := 0 } f (.last f) 0

/-- `f->reset(g)` -/
def reset (s : Thread κ ℓ) (f : ℕ) (g : Option κ) : Thread κ ℓ :=
  s.update f fun fb => { fb with func := g, state := .ready, ctx := .entry, linked := true }

def make (s : Thread κ ℓ) (g : κ) (isMain : Bool) : Thread κ ℓ :=
  { s.update s.nextFiber fun _ => { func := some g, main := isMain } with
    nextFiber := s.nextFiber + 1 }

/-- A step in the code of the fiber `f`; there are pointers only to fibers that were made. The
function of the thread itself is not run by `MainFunc`. -/
def exec (s : Thread κ ℓ) (f : ℕ) : Op κ ℓ → Option (Thread κ ℓ)
  | .work a next => some { s with control := .code f next, trace := s.trace ++ [(f, a)] }
  | .make g isMain next => some { s.make g isMain with control := .code f (next s.nextFiber) }
  | .call g next => if g < s.nextFiber then some (s.call f g next) else none
  | .reset g fn next =>
      if g < s.nextFiber then some { s.reset g fn with control := .code f next } else none
  | .yield next => some (s.yieldAs .suspend f next)
  | .yieldReady next => some (s.yieldAs .ready f next)
  | .ret =>
      some { s with control := if f = 0 ∧ s.mainFunc = false then .exited 0 else .finish f .term }
  | .throw =>
      some { s with control := if f = 0 ∧ s.mainFunc = false then .aborted else .finish f .except }

/-- A step of the thread; there is nothing to choose. -/
def step (prog : κ → Op κ ℓ) (s : Thread κ ℓ) (_ : Unit) : Option (Thread κ ℓ) :=
  match s.control with
  | .code f k => s.exec f (prog k)
  | .finish f st => some (s.finish f st)
  | .behind f =>
      -- `MainFunc` returns: to the context of the main fiber, or out of the thread
      if (s.fibers f).linked then some (s.resume (s.fibers 0).ctx)
      else some { s with control := .exited f }
  | .exited _ | .aborted => none

/-- `MakeMain()` has been called, and the main fiber is about to execute `k`. -/
def start (k : κ) : Thread κ ℓ where
  fibers f := if f = 0 then { state := .running, ctx := .at 0 k, main := true } else {}
  control := .code 0 k

end Thread

/-! ### The law -/

/-- Whoever executes is `t_fiber` and is `RUNNING`; the context of the main fiber is a position of the
main fiber; and no sub-fiber goes on behind its end. -/
structure Lawful (s : Thread κ ℓ) : Prop where
  current : ∀ f k, s.control = .code f k → s.tFiber = f ∧ (s.fibers f).state = .running
  main : ∃ k, (s.fibers 0).ctx = .at 0 k
  stays : ∀ f, s.control ≠ .behind f ∧ (s.control = .exited f → f = 0)

/-- The fiber `f` is about to yield, or its function has ended. -/
def Leaves (prog : κ → Op κ ℓ) (s : Thread κ ℓ) (f : ℕ) : Prop :=
  (∃ k next, s.control = .code f k ∧ (prog k = .yield next ∨ prog k = .yieldReady next)) ∨
    ∃ st, s.control = .finish f st

/-- A sub-fiber that yields or ends gives control to the continuation of the main fiber. -/
def LeavesToMain (prog : κ → Op κ ℓ) (s : Thread κ ℓ) : Prop :=
  ∀ f s', f ≠ 0 → Leaves prog s f → s.step prog () = some s' →
    ∃ k, (s.fibers 0).ctx = .at 0 k ∧ s'.control = .code 0 k

/-- What the fiber `f` does keeps to the main fiber: a `call()` that gets past its assertion is made
by the main fiber, on a fiber that has not ended with an exception (or does nothing, on a fiber that
was constructed with `is_main`); and no fiber that is `RUNNING` is reset. -/
def Op.Keeps (s : Thread κ ℓ) (f : ℕ) : Op κ ℓ → Prop
  | .call g _ =>
      (s.fibers g).state = .running ∨ (s.fibers g).state = .term ∨
        f = 0 ∧ ((s.fibers g).main = true ∨ (s.fibers g).state ≠ .except)
  | .reset g _ _ => (s.fibers g).state ≠ .running
  | _ => True

/-- What is executed now keeps to the main fiber. -/
def MainCalls (prog : κ → Op κ ℓ) (s : Thread κ ℓ) (_ : Unit) : Prop :=
  ∀ f k, s.control = .code f k → (prog k).Keeps s f

/-! ### The invariant -/

/-- Where the continuation of a sub-fiber is, by its state: at its own code while it can be called,
at the end of its `MainFunc` when it has ended. -/
def Fiber.Placed (f : ℕ) (fb : Fiber κ) : Prop :=
  match fb.state with
  | .ready | .suspend => fb.ctx = .entry ∨ ∃ k, fb.ctx = .at f k
  | .running => True
  | .term | .except => fb.ctx = .last f

/-- The law, with what keeps it. -/
structure Sound (s : Thread κ ℓ) : Prop extends Lawful s where
  mainFiber : (s.fibers 0).main = true ∧ (s.fibers 0).state = .running
  placed : ∀ f, f ≠ 0 → (s.fibers f).Placed f
  finish : ∀ f st, s.control = .finish f st → f ≠ 0 ∧ s.tFiber = f ∧ (st = .term ∨ st = .except)
  /-- Only the main fiber and `t_fiber` are `RUNNING`. -/
  running : s.control ≠ .aborted → ∀ f, (s.fibers f).state = .running → f = 0 ∨ f = s.tFiber
  made : s.tFiber < s.nextFiber
  /-- The code of the main fiber is the function of the thread. -/
  thread : s.mainFunc = false

theorem Sound.start (k : κ) : Sound (Thread.start k : Thread κ ℓ) where
  current f k' h := by
    cases h
    exact ⟨rfl, rfl⟩
  main := ⟨k, rfl⟩
  stays f := by simp [Thread.start]
  mainFiber := ⟨rfl, rfl⟩
  placed f hf := by simp [Thread.start, hf, Fiber.Placed]
  finish f st h := by cases h
  running _ f h := by
    by_contra hf
    simp [Thread.start, not_or.mp hf] at h
  made := Nat.one_pos
  thread := rfl

namespace Thread

variable {s : Thread κ ℓ} {f g : ℕ} {k next : κ} {st : State} {c here : Cont κ}

@[simp]
theorem fibers_update (change : Fiber κ → Fiber κ) :
    (s.update f change).fibers = Function.update s.fibers f (change (s.fibers f)) := rfl

@[simp]
theorem tFiber_update (change : Fiber κ → Fiber κ) : (s.update f change).tFiber = s.tFiber := rfl

@[simp]
theorem nextFiber_update (change : Fiber κ → Fiber κ) :
    (s.update f change).nextFiber = s.nextFiber := rfl

@[simp]
theorem control_update (change : Fiber κ → Fiber κ) : (s.update f change).control = s.control := rfl

@[simp]
theorem mainFunc_update (change : Fiber κ → Fiber κ) :
    (s.update f change).mainFunc = s.mainFunc := rfl

@[simp]
theorem fibers_resume : (s.resume c).fibers = s.fibers := rfl

@[simp]
theorem tFiber_resume : (s.resume c).tFiber = s.tFiber := rfl

@[simp]
theorem nextFiber_resume : (s.resume c).nextFiber = s.nextFiber := rfl

/-- The fiber `f` goes, with the state `st`, and leaves its position; the main fiber is given
control. -/
def leave (s : Thread κ ℓ) (f : ℕ) (st : State) (here : Cont κ) : Thread κ ℓ :=
  swap { s.setState f st with tFiber := 0 } f here 0

/-- The fiber `g` is given control; the position of the caller is left in the main fiber. -/
def enter (s : Thread κ ℓ) (here : Cont κ) (g : ℕ) : Thread κ ℓ :=
  (setState { s with tFiber := g } g .running).swap 0 here g

theorem yieldAs_of_main (h : s.tFiber = 0) :
    s.yieldAs st f next = { s with control := .code f next } := if_pos h

theorem yieldAs_of_ne (h : s.tFiber = f) (hf : f ≠ 0) :
    s.yieldAs st f next = s.leave f st (.at f next) := by
  subst h
  exact if_neg hf

theorem finish_of_ne (h : s.tFiber = f) (hf : f ≠ 0) : s.finish f st = s.leave f st (.last f) := by
  subst h
  exact if_neg hf

theorem call_skip (h : s.tFiber = 0) (hg : (s.fibers g).main = true) :
    s.call f g next = { s with control := .code f next } := if_pos ⟨hg, h⟩

theorem call_of_not (h : ¬ ((s.fibers g).main = true ∧ s.tFiber = 0)) :
    s.call f g next =
      if (s.fibers g).state = .running ∨ (s.fibers g).state = .term then
        { s with tFiber := g, control := .aborted }
      else s.enter (.at f next) g := if_neg h

theorem fibers_leave : (s.leave f st here).fibers =
    Function.update s.fibers f { s.fibers f with state := st, ctx := here } := by
  simp [leave, swap, setState]

theorem control_leave (hf : f ≠ 0) (h : (s.fibers 0).ctx = .at 0 k) :
    (s.leave f st here).control = .code 0 k := by
  simp [leave, swap, setState, resume, Function.update_of_ne hf.symm, h]

theorem fibers_enter (hg : g ≠ 0) : (s.enter here g).fibers =
    Function.update (Function.update s.fibers g { s.fibers g with state := .running })
      0 { s.fibers 0 with ctx := here } := by
  simp [enter, swap, setState, Function.update_of_ne hg.symm]

theorem mainFunc_leave (hf : f ≠ 0) (h : (s.fibers 0).ctx = .at 0 k) :
    (s.leave f st here).mainFunc = s.mainFunc := by
  simp [leave, swap, setState, resume, Function.update_of_ne hf.symm, h]

theorem mainFunc_enter (hg : g ≠ 0) : (s.enter here g).mainFunc = s.mainFunc := by
  have hne : (g == 0) = false := by simpa using hg
  simp only [enter, swap, resume, setState, tFiber_update, hne, Bool.or_false]
  split <;> rfl

theorem control_enter_entry (hg : g ≠ 0) (h : (s.fibers g).ctx = .entry) :
    (s.enter here g).control =
      (match (s.fibers g).func with
        | some k => .code g k
        | none => .finish g .except) := by
  simp [enter, swap, setState, resume, Function.update_of_ne hg, h]

theorem control_enter_at (hg : g ≠ 0) (h : (s.fibers g).ctx = .at f k) :
    (s.enter here g).control = .code f k := by
  simp [enter, swap, setState, resume, Function.update_of_ne hg, h]

theorem control_enter_last (hg : g ≠ 0) (h : (s.fibers g).ctx = .last f) :
    (s.enter here g).control = .behind f := by
  simp [enter, swap, setState, resume, Function.update_of_ne hg, h]

end Thread

/-! ### One step -/

namespace Sound

variable {s s' : Thread κ ℓ} {prog : κ → Op κ ℓ} {f g : ℕ} {k next : κ} {st : State} {here : Cont κ}

/-- Only control changes, behind a step in the code of `f`: to code of `f`, to the end of its
function, or to the end of the thread in the main fiber. -/
theorem goOn (hs : Sound s) (hc : s.control = .code f k) {c : Control κ} (trace : List (ℕ × ℓ))
    (hcode : ∀ f' k', c = .code f' k' → f' = f)
    (hstays : ∀ f', c ≠ .behind f' ∧ (c = .exited f' → f' = 0))
    (hfinish : ∀ f' st', c = .finish f' st' → f' = f ∧ f ≠ 0 ∧ (st' = .term ∨ st' = .except)) :
    Sound { s with control := c, trace := trace } where
  current f' k' h := by
    obtain rfl := hcode f' k' h
    exact hs.current f' k hc
  main := hs.main
  stays := hstays
  mainFiber := hs.mainFiber
  placed := hs.placed
  finish f' st' h := by
    obtain ⟨rfl, hf, hst⟩ := hfinish f' st' h
    exact ⟨hf, (hs.current f' k hc).1, hst⟩
  running _ := hs.running (by simp [hc])
  made := hs.made
  thread := hs.thread

theorem go (hs : Sound s) (hc : s.control = .code f k) (trace : List (ℕ × ℓ)) :
    Sound { s with control := .code f next, trace := trace } := by
  refine hs.goOn hc trace ?_ (by simp) (by simp)
  intro f' k' h
  cases h
  rfl

theorem ended (hs : Sound s) (hc : s.control = .code f k) (hf : f ≠ 0)
    (hst : st = .term ∨ st = .except) : Sound { s with control := .finish f st } := by
  refine hs.goOn hc s.trace (by simp) (by simp) ?_
  intro f' st' h
  cases h
  exact ⟨rfl, hf, hst⟩

theorem exited (hs : Sound s) (hc : s.control = .code f k) :
    Sound { s with control := .exited 0 } := by
  refine hs.goOn hc s.trace (by simp) ?_ (by simp)
  intro f'
  refine ⟨by simp, fun h => ?_⟩
  cases h
  rfl

theorem update (hs : Sound s) (hc : s.control = .code f k) {change : Fiber κ → Fiber κ}
    (hg : g ≠ 0) (hgf : g ≠ f) (hst : (change (s.fibers g)).state ≠ .running)
    (hp : (change (s.fibers g)).Placed g) : Sound (s.update g change) where
  current f' k' h := by
    cases hc.symm.trans h
    rw [Thread.fibers_update, Function.update_of_ne hgf.symm]
    exact hs.current f k hc
  main := by
    rw [Thread.fibers_update, Function.update_of_ne hg.symm]
    exact hs.main
  stays := hs.stays
  mainFiber := by
    rw [Thread.fibers_update, Function.update_of_ne hg.symm]
    exact hs.mainFiber
  placed f' hf' := by
    rw [Thread.fibers_update]
    by_cases heq : f' = g
    · subst heq
      rwa [Function.update_self]
    · rw [Function.update_of_ne heq]
      exact hs.placed f' hf'
  finish := hs.finish
  running ha f' h := by
    rw [Thread.fibers_update] at h
    by_cases heq : f' = g
    · subst heq
      rw [Function.update_self] at h
      exact absurd h hst
    · rw [Function.update_of_ne heq] at h
      exact hs.running ha f' h
  made := hs.made
  thread := hs.thread

theorem aborted (hs : Sound s) (hg : g < s.nextFiber) :
    Sound { s with tFiber := g, control := .aborted } where
  current f' k' h := by cases h
  main := hs.main
  stays f' := by simp
  mainFiber := hs.mainFiber
  placed := hs.placed
  finish f' st' h := by cases h
  running h := absurd rfl h
  made := hg
  thread := hs.thread

theorem leave (hs : Sound s) (ha : s.control ≠ .aborted) (hf : f ≠ 0) (ht : s.tFiber = f)
    (hst : st ≠ .running)
    (hp : Fiber.Placed f { s.fibers f with state := st, ctx := here }) :
    Sound (s.leave f st here) := by
  obtain ⟨k, hk⟩ := hs.main
  have hc : (s.leave f st here).control = .code 0 k := Thread.control_leave hf hk
  have hmain : (s.leave f st here).fibers 0 = s.fibers 0 := by
    rw [Thread.fibers_leave, Function.update_of_ne hf.symm]
  refine ⟨⟨?_, ⟨k, by rw [hmain, hk]⟩, fun f' => by simp [hc]⟩, by rw [hmain]; exact hs.mainFiber,
    ?_, fun f' st' h => by simp [hc] at h, ?_, Nat.zero_lt_of_lt hs.made,
    (Thread.mainFunc_leave hf hk).trans hs.thread⟩
  · intro f' k' h
    rw [hc] at h
    cases h
    exact ⟨rfl, by rw [hmain]; exact hs.mainFiber.2⟩
  · intro f' hf'
    rw [Thread.fibers_leave]
    by_cases heq : f' = f
    · subst heq
      rw [Function.update_self]
      exact hp
    · rw [Function.update_of_ne heq]
      exact hs.placed f' hf'
  · intro _ f' h
    rw [Thread.fibers_leave] at h
    by_cases heq : f' = f
    · subst heq
      rw [Function.update_self] at h
      exact absurd h hst
    · rw [Function.update_of_ne heq] at h
      exact .inl ((hs.running ha f' h).resolve_right (by omega))

theorem enter (hs : Sound s) (ha : s.control ≠ .aborted) (ht : s.tFiber = 0) (hg : g ≠ 0)
    (hmade : g < s.nextFiber)
    (hst : (s.fibers g).state = .ready ∨ (s.fibers g).state = .suspend) :
    Sound (s.enter (.at 0 next) g) := by
  have hctx : (s.fibers g).ctx = .entry ∨ ∃ k, (s.fibers g).ctx = .at g k := by
    have hp := hs.placed g hg
    rcases hst with hst | hst <;> simpa only [Fiber.Placed, hst] using hp
  have hfib : (s.enter (.at 0 next) g).fibers = _ := Thread.fibers_enter hg
  -- what it executes is its own code, or the end of a fiber without a function
  have hc : (∃ k, (s.enter (.at 0 next) g).control = .code g k) ∨
      (s.enter (.at 0 next) g).control = .finish g .except := by
    rcases hctx with h | ⟨k, h⟩
    · rw [Thread.control_enter_entry hg h]
      cases (s.fibers g).func with
      | some k => exact .inl ⟨k, rfl⟩
      | none => exact .inr rfl
    · exact .inl ⟨k, Thread.control_enter_at hg h⟩
  have hrun : ((s.enter (.at 0 next) g).fibers g).state = .running := by
    rw [hfib, Function.update_of_ne hg, Function.update_self]
  refine ⟨⟨?_, ⟨next, by rw [hfib, Function.update_self]⟩, ?_⟩, ?_, ?_, ?_, ?_, hmade,
    (Thread.mainFunc_enter hg).trans hs.thread⟩
  · intro f' k' h
    rcases hc with ⟨k, hc⟩ | hc
    · cases hc.symm.trans h
      exact ⟨rfl, hrun⟩
    · cases hc.symm.trans h
  · intro f'
    rcases hc with ⟨k, hc⟩ | hc <;> simp [hc]
  · rw [hfib, Function.update_self]
    exact hs.mainFiber
  · intro f' hf'
    rw [hfib, Function.update_of_ne hf']
    by_cases heq : f' = g
    · subst heq
      rw [Function.update_self]
      trivial
    · rw [Function.update_of_ne heq]
      exact hs.placed f' hf'
  · intro f' st' h
    rcases hc with ⟨k, hc⟩ | hc
    · cases hc.symm.trans h
    · cases hc.symm.trans h
      exact ⟨hg, rfl, .inr rfl⟩
  · intro _ f' h
    rw [hfib] at h
    by_cases h0 : f' = 0
    · exact .inl h0
    rw [Function.update_of_ne h0] at h
    by_cases heq : f' = g
    · exact .inr heq
    · rw [Function.update_of_ne heq] at h
      exact absurd (hs.running ha f' h) (by omega)

theorem call (hs : Sound s) (hc : s.control = .code f k) (hg : g < s.nextFiber)
    (hk : (Op.call g next : Op κ ℓ).Keeps s f) : Sound (s.call f g next) := by
  have ha : s.control ≠ .aborted := by simp [hc]
  by_cases hskip : (s.fibers g).main = true ∧ s.tFiber = 0
  · rw [Thread.call_skip hskip.2 hskip.1]
    exact hs.go hc s.trace
  rw [Thread.call_of_not hskip]
  split_ifs with hst
  · exact hs.aborted hg
  obtain ⟨hrun, hterm⟩ := not_or.mp hst
  obtain ⟨rfl, hex⟩ := (hk.resolve_left hrun).resolve_left hterm
  have ht : s.tFiber = 0 := (hs.current 0 k hc).1
  have hex : (s.fibers g).state ≠ .except := hex.resolve_left fun hm => hskip ⟨hm, ht⟩
  have hg0 : g ≠ 0 := by
    rintro rfl
    exact hrun hs.mainFiber.2
  refine hs.enter ha ht hg0 hg ?_
  cases h : (s.fibers g).state <;> simp_all

theorem yieldAs (hs : Sound s) (hc : s.control = .code f k) (hst : st = .ready ∨ st = .suspend) :
    Sound (s.yieldAs st f next) := by
  obtain ⟨ht, -⟩ := hs.current f k hc
  by_cases hf : f = 0
  · rw [Thread.yieldAs_of_main (ht.trans hf)]
    exact hs.go hc s.trace
  · rw [Thread.yieldAs_of_ne ht hf]
    refine hs.leave (by simp [hc]) hf ht ?_ ?_ <;> rcases hst with rfl | rfl <;> simp [Fiber.Placed]

/-- What the code of a fiber does keeps the law, if it keeps to the main fiber. -/
theorem exec (hs : Sound s) (hc : s.control = .code f k) {op : Op κ ℓ} (hk : op.Keeps s f)
    (h : s.exec f op = some s') : Sound s' := by
  obtain ⟨ht, hrun⟩ := hs.current f k hc
  cases op with
  | work a next =>
    cases h
    exact hs.go hc _
  | make g isMain next =>
    cases h
    have hmade := hs.made
    have hu : Sound (s.update s.nextFiber fun _ => { func := some g, main := isMain }) :=
      hs.update hc (by omega) (by omega) (by simp) (by simp [Fiber.Placed])
    have hn : Sound (s.make g isMain) := { hu with made := Nat.lt_succ_of_lt hmade }
    exact hn.go hc _
  | call g next =>
    rw [Thread.exec] at h
    split_ifs at h with hg
    cases h
    exact hs.call hc hg hk
  | reset g fn next =>
    rw [Thread.exec] at h
    split_ifs at h with hg
    cases h
    have hg0 : g ≠ 0 := by
      rintro rfl
      exact hk hs.mainFiber.2
    have hgf : g ≠ f := by
      rintro rfl
      exact hk hrun
    have hr : Sound (s.reset g fn) := hs.update hc hg0 hgf (by simp) (by simp [Fiber.Placed])
    exact hr.go hc _
  | yield next =>
    cases h
    exact hs.yieldAs hc (.inr rfl)
  | yieldReady next =>
    cases h
    exact hs.yieldAs hc (.inl rfl)
  | ret =>
    cases h
    split_ifs with hf
    · exact hs.exited hc
    · exact hs.ended hc (fun h0 => hf ⟨h0, hs.thread⟩) (.inl rfl)
  | throw =>
    cases h
    split_ifs with hf
    · exact hs.aborted hs.made
    · exact hs.ended hc (fun h0 => hf ⟨h0, hs.thread⟩) (.inr rfl)

theorem step (hs : Sound s) (hk : MainCalls prog s ()) (h : s.step prog () = some s') :
    Sound s' := by
  rw [Thread.step] at h
  cases hc : s.control with
  | code f k =>
    rw [hc] at h
    exact hs.exec hc (hk f k hc) h
  | finish f st =>
    rw [hc] at h
    cases h
    obtain ⟨hf, ht, hst⟩ := hs.finish f st hc
    rw [Thread.finish_of_ne ht hf]
    refine hs.leave (by simp [hc]) hf ht ?_ ?_ <;> rcases hst with rfl | rfl <;> simp [Fiber.Placed]
  | behind f => exact absurd hc (hs.stays f).1
  | exited f =>
    rw [hc] at h
    cases h
  | aborted =>
    rw [hc] at h
    cases h

/-- **Whoever yields or ends gives control to the main fiber.** -/
theorem leavesToMain (hs : Sound s) : LeavesToMain prog s := by
  obtain ⟨k₀, hk₀⟩ := hs.main
  rintro f s' hf (⟨k, next, hc, hop⟩ | ⟨st, hc⟩) h
  · have ht := (hs.current f k hc).1
    rw [Thread.step, hc] at h
    refine ⟨k₀, hk₀, ?_⟩
    rcases hop with hop | hop <;> simp only [hop, Thread.exec, Option.some.injEq] at h <;>
      rw [← h, Thread.yieldAs_of_ne ht hf, Thread.control_leave hf hk₀]
  · rw [Thread.step, hc] at h
    obtain ⟨-, ht, -⟩ := hs.finish f st hc
    refine ⟨k₀, hk₀, ?_⟩
    cases h
    rw [Thread.finish_of_ne ht hf, Thread.control_leave hf hk₀]

/-- What the code of a fiber does breaks the law at once, if it does not keep to the main fiber. -/
theorem not_lawful (hs : Sound s) (hc : s.control = .code f k) {op : Op κ ℓ}
    (hk : ¬ op.Keeps s f) (h : s.exec f op = some s') : ¬ Lawful s' := by
  obtain ⟨ht, hrun⟩ := hs.current f k hc
  intro hl
  cases op with
  | call g next =>
    rw [Thread.exec] at h
    split_ifs at h with hg
    cases h
    simp only [Op.Keeps, not_or, not_and, not_not] at hk
    obtain ⟨hgr, hgt, hge⟩ := hk
    have hg0 : g ≠ 0 := by
      rintro rfl
      exact hgr hs.mainFiber.2
    have hskip : ¬ ((s.fibers g).main = true ∧ s.tFiber = 0) :=
      fun hm => (hge (ht.symm.trans hm.2)).1 hm.1
    rw [Thread.call_of_not hskip, if_neg (not_or.mpr ⟨hgr, hgt⟩)] at hl
    by_cases hf : f = 0
    · -- the fiber has ended: it goes on behind its end
      have hp := hs.placed g hg0
      rw [Fiber.Placed, (hge hf).2] at hp
      exact (hl.stays g).1 (Thread.control_enter_last hg0 hp)
    · -- the position of the caller is now that of the main fiber
      obtain ⟨k', hk'⟩ := hl.main
      rw [Thread.fibers_enter hg0, Function.update_self] at hk'
      cases hk'
      exact hf rfl
  | reset g fn next =>
    rw [Thread.exec] at h
    split_ifs at h with hg
    cases h
    simp only [Op.Keeps, not_not] at hk
    rcases hs.running (by simp [hc]) g hk with rfl | hgt
    · obtain ⟨k', hk'⟩ := hl.main
      simp [Thread.reset] at hk'
    · have := (hl.current f next rfl).2
      simp [Thread.reset, hgt, ht] at this
  | work | make | yield | yieldReady | ret | throw => exact hk trivial

theorem lawful_iff (hs : Sound s) (h : s.step prog () = some s') :
    Lawful s' ↔ MainCalls prog s () := by
  refine ⟨fun hl f k hc => ?_, fun hk => (hs.step hk h).toLawful⟩
  by_contra hk
  rw [Thread.step, hc] at h
  exact hs.not_lawful hc hk h hl

end Sound

/-! ### Whole runs -/

theorem Sound.of_reach {prog : κ → Op κ ℓ} {k : κ} {s : Thread κ ℓ}
    (h : Reach (Thread.step prog) (MainCalls prog) (Thread.start k) s) : Sound s :=
  h.inv (Sound.start k) fun _ hs hk hstep => hs.step hk hstep

/-- **`t_fiber` is the fiber that executes, exactly as long as only the main fiber calls.** In every
run in which each `call()` that gets past its assertion is made by the main fiber on a fiber that has
not ended with an exception, and no `RUNNING` fiber is reset, whoever executes is `t_fiber` and is
`RUNNING`, the context of the main fiber is a position of its own, and whoever yields or ends gives
control to it; and the first step that does otherwise breaks this at once. -/
theorem current_fiber_iff_main_calls (prog : κ → Op κ ℓ) (k : κ) :
    (∀ s, Reach (Thread.step prog) (MainCalls prog) (Thread.start k) s →
      Lawful s ∧ LeavesToMain prog s) ∧
    ∀ s s', Reach (Thread.step prog) (MainCalls prog) (Thread.start k) s →
      s.step prog () = some s' → (Lawful s' ↔ MainCalls prog s ()) :=
  ⟨fun _ h => ⟨(Sound.of_reach h).toLawful, (Sound.of_reach h).leavesToMain⟩,
    fun _ _ h hstep => (Sound.of_reach h).lawful_iff hstep⟩

/-- The main fiber makes two fibers and calls the first, which calls the second; both yield once. -/
def nested : ℕ → Op ℕ Unit
  | 0 => .make 10 false fun _ => 1
  | 1 => .make 20 false fun _ => 2
  | 2 => .call 1 3
  | 10 => .call 2 11
  | 11 => .yield 12
  | 20 => .yield 21
  | _ => .ret

/-- **A nested call.** The second fiber's yield gives control to the first, with `t_fiber` at the main
fiber and the first's position in the main fiber's context. So the first fiber's own yield does
nothing, and its end is the end of the thread: the main fiber never goes on. -/
theorem nested_call :
    (∃ s, Reach (Thread.step nested) Free (Thread.start 0) s ∧ s.control = .code 1 11 ∧
      s.tFiber = 0 ∧ (s.fibers 0).ctx = .at 1 11) ∧
    (∃ s, Reach (Thread.step nested) Free (Thread.start 0) s ∧ s.control = .code 1 12 ∧
      (s.fibers 1).state = .running) ∧
    ∃ s, Reach (Thread.step nested) Free (Thread.start 0) s ∧ s.control = .exited 1 := by
  have hyield : (run (Thread.step nested) (fun _ _ => true) (Thread.start 0)
      (List.replicate 5 ())).any (fun s => decide (s.control = .code 1 11 ∧ s.tFiber = 0 ∧
        (s.fibers 0).ctx = .at 1 11)) = true := by decide +kernel
  have hskip : (run (Thread.step nested) (fun _ _ => true) (Thread.start 0)
      (List.replicate 6 ())).any (fun s => decide (s.control = .code 1 12 ∧
        (s.fibers 1).state = .running)) = true := by decide +kernel
  have hend : (run (Thread.step nested) (fun _ _ => true) (Thread.start 0)
      (List.replicate 9 ())).any (fun s => decide (s.control = .exited 1)) = true := by
    decide +kernel
  obtain ⟨s, hr, hs⟩ := exists_reach_of_run (G := Free) (fun _ _ _ => trivial) hyield
  obtain ⟨s', hr', hs'⟩ := exists_reach_of_run (G := Free) (fun _ _ _ => trivial) hskip
  obtain ⟨s'', hr'', hs''⟩ := exists_reach_of_run (G := Free) (fun _ _ _ => trivial) hend
  exact ⟨⟨s, hr, of_decide_eq_true hs⟩, ⟨s', hr', of_decide_eq_true hs'⟩,
    ⟨s'', hr'', of_decide_eq_true hs''⟩⟩

end Eva01.Fibers
