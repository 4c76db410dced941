import Eva01.Lib.RefCount
import Eva01.Runtime.State
import Mathlib

/-!
The shared pointers to fibers: those of the workers in `Scheduler::run`, those in the queue, those
in the frames of `MainFunc` and `Yield`, and those that anybody else has.

A worker has three of them, `tk.fiber`, `func_fiber` and `idle_fiber`. The fiber that it calls is
one of these. A fiber that has begun has a pointer to itself in the frame of `MainFunc`, which gives
it back before the last switch, since nobody comes back to that frame. One that is suspended has
another one in the frame of `Yield`. The contexts of events, the callbacks of timers and the users
are in `others`.

The fibers go from thread to thread: whoever takes one out of the queue calls it, and it switches
back to the main fiber of that thread. Steps are the statements that others can see: the section
that takes a task, each write of a state, each switch, and each pointer that is copied or reset.

Types: `W` for the workers.
-/

namespace Eva01.Fibers.Lifetime

open Eva01.Lib.Runs
open Eva01.Lib
open Eva01.Runtime (State)

/-! ### The machine -/

/-- What is saved in the context of a fiber. -/
inductive Ctx
  /-- The start of `MainFunc`. -/
  | entry
  /-- Behind the `swapcontext` of `Yield` or `YieldReady`. -/
  | yielded
  /-- Behind the last `yield` of `MainFunc`. -/
  | last
  /-- Nothing that is worth anything: a thread is on the stack. -/
  | gone
  deriving DecidableEq, Repr

/-- Where a thread is in the code of a fiber. -/
inductive Spot
  /-- At the start of `MainFunc`. -/
  | entry
  /-- In `m_func`. -/
  | body
  /-- In `Yield`, with the state written. -/
  | yielding
  /-- Back in `Yield`. -/
  | resumed
  /-- In `MainFunc`, behind `m_func`, with the state written. -/
  | finished
  /-- Behind `cur.reset()`. -/
  | leaving
  deriving DecidableEq, Repr

structure Obj where
  state : State := .ready
  ctx : Ctx := .entry
  /-- `m_func` is set. -/
  func : Bool := true
  /-- The frame of `MainFunc` on its stack has a pointer to it. -/
  main : Bool := false
  /-- So has the frame of `Yield`. -/
  frame : Bool := false
  deriving DecidableEq, Repr

/-- The pointers of a worker: `tk.fiber`, `func_fiber` and `idle_fiber`. -/
inductive Kind
  | task
  | func
  | idle
  deriving DecidableEq, Repr

instance : Fintype Kind := ⟨{.task, .func, .idle}, fun k => by cases k <;> decide⟩

/-- Where a worker is in `Scheduler::run`. -/
inductive Pc
  /-- Before `idle_fiber` is made. -/
  | make
  /-- At the top of the loop. -/
  | top
  /-- Before the section that takes a task. -/
  | select
  /-- Behind it. -/
  | chosen
  /-- In `call` of one of its fibers. -/
  | call (k : Kind)
  /-- Before the `swapcontext` of `call`. -/
  | swap (k : Kind) (f : ℕ)
  /-- On the stack of a fiber. -/
  | on (k : Kind) (f : ℕ) (p : Spot)
  /-- Behind `call`. -/
  | back (k : Kind)
  /-- Between `schedule(func_fiber)` and `func_fiber.reset()`. -/
  | discard
  /-- At the end of `run`, with these pointers to give up. -/
  | leave (ks : List Kind)
  | ended
  deriving DecidableEq, Repr

inductive Task
  | fiber (f : ℕ)
  | func
  deriving DecidableEq, Repr

structure Pool (W : Type*) where
  objs : ℕ → Option Obj := fun _ => none
  /-- The use counts of the shared pointers. -/
  count : ℕ → ℕ := fun _ => 0
  next : ℕ := 0
  /-- `s_fiber_count`, without the main fibers. -/
  total : ℕ := 0
  /-- `m_tasks` -/
  queue : List Task := []
  /-- The pointers that others have. -/
  others : List ℕ := []
  slot : W × Kind → Option ℕ := fun _ => none
  /-- `func_fiber` when it is about to be reset. -/
  old : W → Option ℕ := fun _ => none
  /-- `tk.func` is set. -/
  job : W → Bool := fun _ => false
  /-- `t_fiber`, none for the main fiber of the thread. -/
  current : W → Option ℕ := fun _ => none
  pc : W → Pc := fun _ => .make
  /-- An assertion has failed, something was used that is not there, or a stack was entered that is in
  use or at its end. -/
  crashed : Bool := false

/-- What the function of a fiber can do here. -/
inductive Choice
  /-- `GetThis()`, given to somebody. -/
  | share
  /-- `YieldReady()` and `Yield()` -/
  | yield (ready : Bool)
  /-- It returns, or a `std::exception` leaves it. -/
  | finish (ok : Bool)

inductive Act (W : Type*)
  | go (w : W)
  | body (w : W) (c : Choice)
  /-- Somebody makes a fiber. -/
  | spawn
  /-- Somebody schedules a function. -/
  | submit
  /-- One of the others copies a pointer. -/
  | copy (j : ℕ)
  /-- Or gives it up. -/
  | forget (j : ℕ)
  /-- Or schedules the fiber, handing the pointer over. -/
  | wake (j : ℕ)

variable {W : Type*} [DecidableEq W]

namespace Pool

def crash (x : Pool W) : Pool W := { x with crashed := true }

def goto (x : Pool W) (w : W) (p : Pc) : Pool W := { x with pc := Function.update x.pc w p }

def write (x : Pool W) (f : ℕ) (o : Obj) : Pool W :=
  { x with objs := Function.update x.objs f (some o) }

def acquire (x : Pool W) (f : ℕ) : Pool W :=
  { x with count := Function.update x.count f (x.count f + 1) }

/-- A pointer is given up; with the last one `~Fiber` is called. -/
def release (x : Pool W) (f : ℕ) : Pool W :=
  if 1 < x.count f then { x with count := Function.update x.count f (x.count f - 1) }
  else
    match x.objs f with
    | some o =>
        if o.state = .running then x.crash
        else { x with objs := Function.update x.objs f none, count := Function.update x.count f 0
                      total := x.total - 1 }
    | none => x.crash

/-- `new Fiber`, with a pointer to it. -/
def newFiber (x : Pool W) : Pool W :=
  { x with objs := Function.update x.objs x.next (some {})
           count := Function.update x.count x.next 1
           next := x.next + 1, total := x.total + 1 }

def put (x : Pool W) (w : W) (k : Kind) (v : Option ℕ) : Pool W :=
  { x with slot := Function.update x.slot (w, k) v }

/-- `reset()` of a pointer of a worker. -/
def drop (x : Pool W) (w : W) (k : Kind) : Pool W :=
  match x.slot (w, k) with
  | some f => (x.put w k none).release f
  | none => x

/-- There is nothing to do. -/
def toIdle (x : Pool W) (w : W) : Pool W :=
  match x.slot (w, .idle) with
  | some i =>
      match x.objs i with
      | some o =>
          if o.state.isDone then x.goto w (.leave [.task, .func, .idle]) else x.goto w (.call .idle)
      | none => x.crash
  | none => x.crash

/-- The section that takes a task. Its assertion is that the fiber is not running. -/
def select (x : Pool W) (w : W) : Pool W :=
  match x.queue with
  | [] => { x with job := Function.update x.job w false }.goto w .chosen
  | .func :: rest =>
      { x with queue := rest, job := Function.update x.job w true }.goto w .chosen
  | .fiber f :: rest =>
      match x.objs f with
      | some o =>
          if o.state = .running then x.crash
          else
            ({ x with queue := rest, job := Function.update x.job w false }.put w .task (some f)).goto w
              .chosen
      | none => x.crash

/-- What to do with the task. -/
def dispatch (x : Pool W) (w : W) : Pool W :=
  match x.slot (w, .task) with
  | some f =>
      match x.objs f with
      | some o => if o.state.isDone then x.toIdle w else x.goto w (.call .task)
      | none => x.crash
  | none =>
      if x.job w then
        match x.slot (w, .func) with
        | some g =>
            match x.objs g with
            | some o =>
                (x.write g { o with state := .ready, ctx := .entry, func := true }).goto w (.call .func)
            | none => x.crash
        | none => (x.newFiber.put w .func (some x.next)).goto w (.call .func)
      else x.toIdle w

/-- `Fiber::call`, up to the switch. -/
def call (x : Pool W) (w : W) (k : Kind) : Pool W :=
  match x.slot (w, k) with
  | some f =>
      match x.objs f with
      | some o =>
          if o.state = .running ∨ o.state = .term then x.crash
          else
            { x.write f { o with state := .running } with
              current := Function.update x.current w (some f) }.goto w (.swap k f)
      | none => x.crash
  | none => x.crash

/-- The switch to a fiber. -/
def enter (x : Pool W) (w : W) (k : Kind) (f : ℕ) : Pool W :=
  match x.objs f with
  | some o =>
      match o.ctx with
      | .entry => (x.write f { o with ctx := .gone }).goto w (.on k f .entry)
      | .yielded => (x.write f { o with ctx := .gone }).goto w (.on k f .resumed)
      | .last | .gone => x.crash
  | none => x.crash

/-- A step in the code of a fiber that is not in `m_func`. -/
def advance (x : Pool W) (w : W) (k : Kind) (f : ℕ) (o : Obj) : Spot → Option (Pool W)
  | .entry =>
      -- to call an empty function throws
      if x.current w = some f then
        some (((x.acquire f).write f
          { o with main := true, state := if o.func then o.state else .except }).goto w
            (.on k f (if o.func then .body else .finished)))
      else some x.crash
  | .body => none
  | .yielding =>
      some ({ x.write f { o with ctx := .yielded } with
        current := Function.update x.current w none }.goto w (.back k))
  | .resumed => some (((x.write f { o with frame := false }).goto w (.on k f .body)).release f)
  | .finished => some (((x.write f { o with main := false }).goto w (.on k f .leaving)).release f)
  | .leaving =>
      if x.current w = some f then
        some ({ x.write f { o with ctx := .last } with
          current := Function.update x.current w none }.goto w (.back k))
      else some x.crash

/-- Behind `call`. -/
def comeBack (x : Pool W) (w : W) : Kind → Pool W
  | .task =>
      match x.slot (w, .task) with
      | some f =>
          match x.objs f with
          | some o =>
              if o.state = .ready then
                ({ x with queue := x.queue ++ [Task.fiber f] }.put w .task none).goto w .top
              else (x.goto w .top).drop w .task
          | none => x.crash
      | none => x.crash
  | .func =>
      match x.slot (w, .func) with
      | some f =>
          match x.objs f with
          | some o =>
              if o.state = .ready then
                ({ x.acquire f with queue := x.queue ++ [Task.fiber f]
                                    old := Function.update x.old w (some f) }.put w .func none).goto w
                  .discard
              else if o.state.isDone then
                (x.write f { o with state := .ready, ctx := .entry, func := false }).goto w .top
              else (x.goto w .top).drop w .func
          | none => x.crash
      | none => x.crash
  | .idle => x.goto w .top

/-- The next step of a worker. -/
def go (x : Pool W) (w : W) : Option (Pool W) :=
  match x.pc w with
  | .make => some ((x.newFiber.put w .idle (some x.next)).goto w .top)
  | .top => some ((x.goto w .select).drop w .task)
  | .select => some (x.select w)
  | .chosen => some (x.dispatch w)
  | .call k => some (x.call w k)
  | .swap k f => some (x.enter w k f)
  | .on k f p =>
      match x.objs f with
      | some o => x.advance w k f o p
      | none => some x.crash
  | .back k => some (x.comeBack w k)
  | .discard =>
      match x.old w with
      | some f => some (({ x with old := Function.update x.old w none }.goto w .top).release f)
      | none => some (x.goto w .top)
  | .leave (k :: ks) => some ((x.goto w (.leave ks)).drop w k)
  | .leave [] => some (x.goto w .ended)
  | .ended => none

/-- A step in `m_func` of a fiber. -/
def body (x : Pool W) (w : W) (c : Choice) : Option (Pool W) :=
  match x.pc w with
  | .on k f .body =>
      match x.objs f with
      | some o =>
          if x.current w = some f then
            match c with
            | .share => some { x.acquire f with others := f :: x.others }
            | .yield ready =>
                some (((x.acquire f).write f
                  { o with frame := true, state := if ready then .ready else .suspend }).goto w
                    (.on k f .yielding))
            | .finish ok =>
                some ((x.write f { o with state := if ok then .term else .except }).goto w
                  (.on k f .finished))
          else some x.crash
      | none => some x.crash
  | _ => none

def step (x : Pool W) (a : Act W) : Option (Pool W) :=
  if x.crashed then none
  else
    match a with
    | .go w => x.go w
    | .body w c => x.body w c
    | .spawn => some { x.newFiber with others := x.next :: x.others }
    | .submit => some { x with queue := x.queue ++ [Task.func] }
    | .copy j =>
        match x.others[j]? with
        | some f => some { x.acquire f with others := f :: x.others }
        | none => none
    | .forget j =>
        match x.others[j]? with
        | some f => some ({ x with others := x.others.eraseIdx j }.release f)
        | none => none
    | .wake j =>
        match x.others[j]? with
        | some f => some { x with others := x.others.eraseIdx j, queue := x.queue ++ [Task.fiber f] }
        | none => none

end Pool

/-! ### References and claims -/

/-- How many of the pointers in the frames on its own stack a fiber has. -/
def Obj.frames (o : Obj) : ℕ := o.main.toNat + o.frame.toNat

namespace Pool

def frames (x : Pool W) (f : ℕ) : ℕ := ((x.objs f).map Obj.frames).getD 0

section Refs

variable [Fintype W]

/-- The pointers to a fiber. -/
def refs (x : Pool W) (f : ℕ) : ℕ :=
  RefCount.refs x.slot f + RefCount.refs x.old f + x.queue.count (.fiber f) + x.others.count f +
    x.frames f

/-- Those of them through which it can be called. -/
def claims (x : Pool W) (f : ℕ) : ℕ := RefCount.refs x.slot f + x.queue.count (.fiber f)

end Refs

def Alive (x : Pool W) (f : ℕ) : Prop := (x.objs f).isSome = true

instance (x : Pool W) : DecidablePred x.Alive := fun _ => inferInstanceAs (Decidable (_ = _))

/-- The number of fibers that exist. -/
def live (x : Pool W) : ℕ := ((Finset.range x.next).filter x.Alive).card

end Pool

/-- Who wakes a fiber does it when it has switched out, and nobody can call it. -/
def Calm [Fintype W] (x : Pool W) : Act W → Prop
  | .wake j => ∀ f, x.others[j]? = some f →
      x.claims f = 0 ∧ ∀ o, x.objs f = some o → o.ctx ≠ .last
  | _ => True

end Eva01.Fibers.Lifetime
