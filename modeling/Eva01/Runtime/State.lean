import Eva01.IOManager.Slots
import Eva01.Scheduler.Tasks
import Eva01.Timer

/-!
The state of a running `IOManager`: the worker threads, each somewhere in `Scheduler::run`, in its
idle fiber or in the code of a fiber it executes, and what they share.

Fibers, timers and calls of `do_io` are objects, and are numbered. The code of the tasks is a
parameter: `κ` is the type of points in it, and a program says what is done at each (`Op`). The
steps of the library that a task goes through on the way, such as the parts of `Fiber::Yield` or of
`do_io`, are points of their own (`Code`).

Besides what the program keeps, the state has a record of the run that no step depends on: each
function handed to `schedule`, and each fiber made for it, has a ticket; `trace` says which segment
of which ticket was begun by which worker.

Types: `κ` for the points of the program, `N` for the number of descriptors, `n` for the workers.
-/

namespace Eva01.Runtime

open Eva01.IOManager (Event Events Report Assertion Fds Target)
open Eva01.Scheduler (Selected Selects)

variable {κ : Type*} {n N : ℕ}

/-! ### Fibers and tasks -/

/-- `Fiber::State`. -/
inductive State
  | ready
  | suspend
  | running
  | term
  | except
  deriving DecidableEq, Repr

def State.isDone : State → Bool
  | .term | .except => true
  | _ => false

/-- The functions that are handed to the scheduler. -/
inductive Func (κ : Type*) (N : ℕ)
  | user (k : κ)
  /-- `schedule(fiber)`, as bound by `sleep`. -/
  | wake (f : ℕ)
  /-- The timeout callback of the call `i` of `do_io` or `connect_with_timeout`. -/
  | timeout (i : ℕ) (fd : Fin N) (e : Event)
  deriving DecidableEq

/-- What a task holds; a function comes with its ticket. -/
inductive Work (κ : Type*) (N : ℕ)
  | fiber (f : ℕ)
  | func (g : Func κ N) (ticket : ℕ)
  deriving DecidableEq

/-- A task of the list `m_tasks`. -/
abbrev Job (κ : Type*) (N : ℕ) := Scheduler.Task (Work κ N)

/-! ### Programs -/

/-- What a task does at a point of its code, and the point where it goes on. -/
inductive Op (κ : Type*) (N : ℕ)
  | ret
  /-- A `std::exception` leaves the function. -/
  | throw
  /-- A choice the library knows nothing of. -/
  | branch (next : ℕ → κ)
  | schedule (gs : List κ) (thr : ℤ) (next : κ)
  /-- `schedule(Fiber::ptr(new Fiber(g)), thr)` -/
  | spawn (g : κ) (thr : ℤ) (next : κ)
  | addTimer (ms : ℕ) (g : κ) (recurring : Bool) (next : κ)
  /-- `sleep`, `usleep` and `nanosleep`, by the period of their timer. -/
  | sleep (ms : ℕ) (next : κ)
  | yieldReady (next : κ)
  /-- A hooked call on a blocking socket: `do_io`, or with `retry` off `connect_with_timeout`. -/
  | io (fd : Fin N) (e : Event) (timeout : Option ℕ) (retry : Bool) (next : κ)
  | addEvent (fd : Fin N) (e : Event) (g : κ) (next : κ)
  | delEvent (fd : Fin N) (e : Event) (next : κ)
  | cancelEvent (fd : Fin N) (e : Event) (next : κ)
  | cancelAll (fd : Fin N) (next : κ)

/-- A call of `do_io` or `connect_with_timeout`: its `timer_info` and its arguments. -/
structure Io (κ : Type*) (N : ℕ) where
  info : ℕ
  fd : Fin N
  event : Event
  timeout : Option ℕ
  retry : Bool
  next : κ
  deriving DecidableEq

/-- Where a fiber goes on after a yield. -/
inductive Resume (κ : Type*) (N : ℕ)
  | user (k : κ)
  /-- In `do_io`, behind `Fiber::Yield`, with the timer of the wait. -/
  | io (r : Io κ N) (timer : Option ℕ)
  deriving DecidableEq

/-- A saved context, `m_ctx`: at the start of `MainFunc` with `m_func`, behind a yield, or behind
the last yield of `MainFunc`. -/
inductive Ctx (κ : Type*) (N : ℕ)
  | entry (g : Option (Func κ N))
  | at (r : Resume κ N)
  | dead
  deriving DecidableEq

/-- What comes after a timer has been added and its tickle is done. -/
inductive Cont (κ : Type*) (N : ℕ)
  | run (k : κ)
  | suspend (r : Resume κ N)
  | register (r : Io κ N) (timer : Option ℕ)
  deriving DecidableEq

/-- What a timer is for. -/
inductive TimerUse (κ : Type*) (N : ℕ)
  | call (g : κ) (recurring : Bool) (next : κ)
  | sleep (next : κ)
  | io (r : Io κ N)
  deriving DecidableEq

/-- What an event is registered for: a function, or the calling fiber that is about to wait. -/
inductive Adding (κ : Type*) (N : ℕ)
  | call (fd : Fin N) (e : Event) (g : κ) (next : κ)
  | wait (r : Io κ N) (timer : Option ℕ)
  deriving DecidableEq

/-- The points of the code a fiber executes. -/
inductive Code (κ : Type*) (N : ℕ)
  | user (k : κ)
  /-- `addTimer`: the timer is made, its deadline computed; before its section. -/
  | timerAdd (period deadline : ℕ) (use : TimerUse κ N)
  /-- `onFirstTimerChanged`: before `tickle` reads `m_idle_threads`. -/
  | tickleRead (c : Cont κ N)
  /-- `tickle`: before the byte is written. -/
  | tickleWrite (c : Cont κ N)
  /-- `Yield`, `YieldReady`: before `m_state` is written. -/
  | yieldState (st : State) (r : Resume κ N)
  /-- `Yield`, `YieldReady`: before `swapcontext`. -/
  | yieldSwap (st : State) (r : Resume κ N)
  /-- `MainFunc`: before `m_state` is written. -/
  | finState (st : State)
  /-- `MainFunc`: before the last `yield`. -/
  | finSwap (st : State)
  /-- `MainFunc`: behind the last `yield`. -/
  | dead
  /-- The function bound by `sleep`. -/
  | wake (f : ℕ)
  /-- The timeout callback, before it tests the `timer_info`. The test and the write of `cancelled`
  behind it are one step here; the source has no lock around them. -/
  | timeout (i : ℕ) (fd : Fin N) (e : Event)
  /-- The timeout callback, before `cancelEvent`. -/
  | timeoutFire (i : ℕ) (fd : Fin N) (e : Event)
  /-- `do_io`: before the underlying call. -/
  | ioCall (r : Io κ N)
  /-- `do_io`: the call would block; before the timer is made. -/
  | ioArm (r : Io κ N)
  /-- `addEvent`: before the test made without the lock. -/
  | evTest (a : Adding κ N)
  /-- `addEvent`: before its section. -/
  | evAdd (a : Adding κ N)
  /-- `do_io`: resumed, before `timer->cancel()`. -/
  | ioResume (r : Io κ N) (timer : Option ℕ)
  /-- `do_io`: before the test of `tinfo->cancelled`. -/
  | ioCheck (r : Io κ N)
  deriving DecidableEq

/-! ### Workers -/

/-- The branch of `run` that executes a fiber: that of `tk.fiber`, or that of `func_fiber`. -/
inductive Branch (κ : Type*) (N : ℕ)
  | fiber
  | func (g : Func κ N) (ticket : ℕ)
  deriving DecidableEq

/-- An entry of the array filled by `epoll_wait`. -/
inductive PollEvent (N : ℕ)
  | tickle
  | io (fd : Fin N) (r : Report)
  deriving DecidableEq, Repr

/-- Where a worker is: in `run`, in a fiber (`exec`), or in `idle` (from `stopTest` to `drain`).
The last component of `back`, `check` and `checkDone` is the state the fiber was left in. -/
inductive Pc (κ : Type*) (N : ℕ)
  /-- Before the section that selects a task. -/
  | select
  /-- In the selection loop, on a task of another thread, with `m_mutex` held. -/
  | spin
  /-- Before `++m_active_threads`. -/
  | popped (tk : Option (Job κ N)) (needTickle : Bool)
  | tickleRead (tk : Option (Job κ N))
  | tickleWrite (tk : Option (Job κ N))
  /-- Before the branches on `tk`. -/
  | dispatch (tk : Option (Job κ N))
  /-- `Fiber::call`: before its assertion and the write of `m_state`. -/
  | call (b : Branch κ N) (f : ℕ)
  /-- `Fiber::call`: before `swapcontext`. -/
  | swapIn (b : Branch κ N) (f : ℕ)
  | exec (b : Branch κ N) (f : ℕ) (c : Code κ N)
  /-- Back from `call`, before `--m_active_threads`. -/
  | back (b : Branch κ N) (f : ℕ) (st : State)
  /-- Before `getState() == READY`. -/
  | check (b : Branch κ N) (f : ℕ) (st : State)
  /-- The fiber was `READY`: before `schedule`. -/
  | requeue (b : Branch κ N) (f : ℕ)
  /-- Before `func_fiber->isDone()`. -/
  | checkDone (f : ℕ) (st : State)
  /-- Before `func_fiber->reset(nullptr)`. -/
  | retire (f : ℕ)
  /-- Before `idle_fiber->isDone()`. -/
  | idleTest
  /-- Before `++m_idle_threads`. -/
  | incIdle
  /-- Before `shouldStop()`, which takes `m_mutex` and asks `hasTimers()`. -/
  | stopTest
  /-- `shouldStop()`, with `m_mutex` held: no timers; before `m_active_threads` is read. -/
  | stopActive
  /-- `shouldStop()`, with `m_mutex` held: before `m_pending_count` is read. -/
  | stopPending
  /-- Before `getNextTimeMs()`. -/
  | wait
  /-- In `epoll_wait`, up to a given time. -/
  | blocked (deadline : ℕ)
  /-- `getExpiredFuncs`: before the clock is read, before the first section, before the second. -/
  | expireNow (evs : List (PollEvent N))
  | expireRead (now : ℕ) (evs : List (PollEvent N))
  | expireWrite (now : ℕ) (evs : List (PollEvent N))
  /-- Before the expired functions are scheduled. -/
  | expireSched (gs : List (Func κ N)) (evs : List (PollEvent N))
  /-- In the loop over the reported events. -/
  | events (evs : List (PollEvent N))
  /-- In the loop that empties the tickle pipe. -/
  | drain (evs : List (PollEvent N))
  /-- Before `--m_idle_threads`. -/
  | decIdle
  | exited
  deriving DecidableEq

/-- A worker. `func_fiber` is part of `pc` while the branch of a function is executed, and here
otherwise. -/
structure Worker (κ : Type*) (N : ℕ) where
  pc : Pc κ N := .select
  funcFiber : Option ℕ := none
  /-- `idle_fiber->isDone()` -/
  idleDone : Bool := false

/-! ### The shared state -/

/-- A fiber. The number of segments run is counted where the context is saved. -/
structure Fiber (κ : Type*) (N : ℕ) where
  state : State := .ready
  ctx : Ctx κ N := .entry none
  ticket : Option ℕ := none
  seg : ℕ := 0

/-- A `timer_info`, and whether the call it belongs to is still under way. -/
structure Info where
  cancelled : Bool := false
  alive : Bool := false

/-- The assertions that end the process. -/
inductive Site
  /-- The `ASSERT` of `run` on the state of a selected fiber. -/
  | run
  /-- The `ASSERT` of `Fiber::call`. -/
  | call
  | event (a : Assertion)
  /-- Control got behind the last yield of `MainFunc`. -/
  | dead
  deriving DecidableEq

structure Shared (κ : Type*) (N : ℕ) where
  tasks : List (Job κ N) := []
  /-- `m_active_threads` -/
  active : ℕ := 0
  /-- `m_idle_threads` -/
  idle : ℕ := 0
  /-- The bytes in the tickle pipe. -/
  pipe : ℕ := 0
  /-- `m_mutex` is held between two steps: for ever by a worker at `spin`, or by one in
  `shouldStop()`. -/
  locked : Bool := false
  autoStop : Bool := false
  stopping : Bool := false
  fibers : ℕ → Fiber κ N := fun _ => {}
  nextFiber : ℕ := 0
  timers : TimerManager (Func κ N) := {}
  fds : Fds N ℕ κ := {}
  infos : ℕ → Info := fun _ => {}
  nextInfo : ℕ := 0
  clock : ℕ := 0
  crashed : Option Site := none
  nextTicket : ℕ := 0
  /-- The thread each ticket was scheduled for. -/
  pins : ℕ → ℤ := fun _ => -1
  /-- The segments begun: ticket, number of the segment, worker. -/
  trace : List (ℕ × ℕ × ℕ) := []
  /-- The tickets whose function has ended. -/
  finished : List ℕ := []
  /-- The tickets that have given up control by `Yield`. -/
  suspended : List ℕ := []

/-- Where `stop()` is. -/
inductive Control
  | running
  /-- With so many calls of `tickle` left; before one reads `m_idle_threads`. -/
  | tickling (k : ℕ)
  /-- Before the byte of one of them is written. -/
  | writing (k : ℕ)
  | joining
  | stopped
  deriving DecidableEq, Repr

/-- A thread that is no worker, in `addTimer`: before its section, and in `tickle`. -/
inductive External (κ : Type*)
  | timerAdd (period deadline : ℕ) (g : κ) (recurring : Bool)
  | tickleRead
  | tickleWrite
  deriving DecidableEq

structure Sys (κ : Type*) (n N : ℕ) where
  shared : Shared κ N := {}
  workers : Fin n → Worker κ N := fun _ => {}
  ctl : Control := .running
  ext : List (External κ) := []

/-! ### What a machine is made of -/

/-- The program, the selection of a task from the list, and the addresses of the timer objects.
There is at least one worker, and their number is an `int`. -/
structure Setup (κ : Type*) (n N : ℕ) where
  prog : κ → Op κ N
  sel : (Work κ N → Bool) → ℤ → List (Job κ N) → Selected (Work κ N)
  selects : Selects sel
  addr : ℕ → ℕ
  addrInj : Function.Injective addr
  pos : 0 < n
  small : n < 2 ^ 31

lemma small_one : 1 < 2 ^ 31 := by decide

lemma small_two : 2 < 2 ^ 31 := by decide

/-- The machine that runs `prog` with the selection of the code and timers at rising addresses. -/
def Setup.ofProg (prog : κ → Op κ N) (pos : 0 < n) (small : n < 2 ^ 31) : Setup κ n N where
  prog := prog
  sel := Scheduler.selectTask
  selects := Scheduler.selectTask_selects
  addr := id
  addrInj := Function.injective_id
  pos := pos
  small := small

end Eva01.Runtime
