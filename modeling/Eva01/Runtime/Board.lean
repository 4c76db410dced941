import Eva01.Runtime.Step

/-!
An abstract scheduler, which knows the task list, where each worker is with the task it has
(`Stage`), and which segment of which ticket a fiber is in (`Ledger`), and nothing of timers, events
or the states of fibers.

`Move` says what may happen on a board: functions are issued with new tickets, a worker takes a task
meant for it, loads a function into a fiber nobody has, begins and leaves a segment, and puts the
fiber back, drops or retires it. Which tasks are started, how often and on which thread is a matter
of boards.
-/

namespace Eva01.Runtime

open Eva01.IOManager (Target)

variable {κ : Type*} {n N : ℕ}

/-! ### Boards -/

/-- Where a worker is with its task. -/
inductive Stage (κ : Type*) (N : ℕ)
  | idle
  /-- The task is taken. -/
  | hand (w : Work κ N)
  /-- It is in a fiber, which has not been swapped in yet. -/
  | loaded (f : ℕ)
  | running (f : ℕ)
  /-- The fiber has been swapped out, and is looked at. -/
  | left (f : ℕ)

/-- The task list, the fibers by the ticket and the segment they are in, the tickets, and the record
of the run. -/
@[ext]
structure Ledger (κ : Type*) (N : ℕ) where
  tasks : List (Job κ N)
  ticket : ℕ → Option ℕ
  seg : ℕ → ℕ
  nextTicket : ℕ
  pins : ℕ → ℤ
  trace : List (ℕ × ℕ × ℕ)
  finished : List ℕ
  suspended : List ℕ

structure Board (κ : Type*) (n N : ℕ) extends Ledger κ N where
  stage : Fin n → Stage κ N

/-- The fiber of a stage. -/
def Stage.fiber : Stage κ N → Option ℕ
  | .hand (.fiber f) | .loaded f | .running f | .left f => some f
  | _ => none

namespace Ledger

def withTasks (l : Ledger κ N) (tasks : List (Job κ N)) : Ledger κ N := { l with tasks := tasks }

/-- The next `k` tickets are for the thread `thr`. -/
def pin (l : Ledger κ N) (k : ℕ) (thr : ℤ) : ℕ → ℤ :=
  fun T => if l.nextTicket ≤ T ∧ T < l.nextTicket + k then thr else l.pins T

def schedule (l : Ledger κ N) (ws : List (Target ℕ (Func κ N))) (thr : ℤ) : Ledger κ N :=
  { l with tasks := l.tasks ++ (issue l.nextTicket ws).map fun w => ⟨w, thr⟩
           nextTicket := l.nextTicket + funcs ws
           pins := l.pin (funcs ws) thr }

/-- The ticket `T` goes into the fiber `f`. -/
def load (l : Ledger κ N) (f : ℕ) (T : Option ℕ) : Ledger κ N :=
  { l with ticket := Function.update l.ticket f T, seg := Function.update l.seg f 0 }

/-- A new fiber `f` is made and scheduled. -/
def spawn (l : Ledger κ N) (f : ℕ) (thr : ℤ) : Ledger κ N :=
  { l.load f (some l.nextTicket) with
    tasks := l.tasks ++ [⟨.fiber f, thr⟩]
    nextTicket := l.nextTicket + 1
    pins := l.pin 1 thr }

def start (l : Ledger κ N) (i f : ℕ) : Ledger κ N :=
  { l with trace := l.trace ++ (l.ticket f).toList.map fun T => (T, l.seg f, i) }

def leave (l : Ledger κ N) (f : ℕ) : Ledger κ N :=
  { l with seg := Function.update l.seg f (l.seg f + 1) }

def suspend (l : Ledger κ N) (f : ℕ) : Ledger κ N :=
  { l with suspended := l.suspended ++ (l.ticket f).toList }

def finish (l : Ledger κ N) (f : ℕ) : Ledger κ N :=
  { l with finished := l.finished ++ (l.ticket f).toList }

end Ledger

namespace Board

/-- Nobody but the worker `i` has the fiber `f`. -/
def Alone (b : Board κ n N) (i : Fin n) (f : ℕ) : Prop :=
  (∀ tk ∈ b.tasks, tk.work ≠ .fiber f) ∧ ∀ j, j ≠ i → (b.stage j).fiber ≠ some f

/-- Nobody has the fiber `f`. -/
def Absent (b : Board κ n N) (f : ℕ) : Prop :=
  (∀ tk ∈ b.tasks, tk.work ≠ .fiber f) ∧ ∀ j, (b.stage j).fiber ≠ some f

/-- The worker `i` goes on to `st`. -/
def put (b : Board κ n N) (l : Ledger κ N) (i : Fin n) (st : Stage κ N) : Board κ n N :=
  { l with stage := Function.update b.stage i st }

end Board

/-- What may happen on a board; `q` says which fibers may be put back into the task list. -/
inductive Move (q : ℕ → Prop) (b : Board κ n N) : Board κ n N → Prop
  | still : Move q b b
  /-- A fiber that is scheduled has been suspended. -/
  | schedule {ws : List (Target ℕ (Func κ N))} {thr : ℤ} :
      (∀ f, .fiber f ∈ ws → ∀ T, b.ticket f = some T → T ∈ b.suspended) →
      Move q b { b with toLedger := b.toLedger.schedule ws thr }
  | spawn {f : ℕ} {thr : ℤ} :
      b.Absent f → b.ticket f = none → Move q b { b with toLedger := b.toLedger.spawn f thr }
  | take {i : Fin n} {tk : Job κ N} {pre post : List (Job κ N)} :
      b.stage i = .idle → b.tasks = pre ++ tk :: post → tk.eligible i = true →
      Move q b (b.put (b.toLedger.withTasks (pre ++ post)) i (.hand tk.work))
  | resume {i : Fin n} {f : ℕ} :
      b.stage i = .hand (.fiber f) → Move q b (b.put b.toLedger i (.loaded f))
  | load {i : Fin n} {g : Func κ N} {T f : ℕ} :
      b.stage i = .hand (.func g T) → b.Absent f → b.ticket f = none →
      Move q b (b.put (b.toLedger.load f (some T)) i (.loaded f))
  | start {i : Fin n} {f : ℕ} :
      b.stage i = .loaded f → b.Alone i f → Move q b (b.put (b.toLedger.start i f) i (.running f))
  | suspend {i : Fin n} {f : ℕ} :
      b.stage i = .running f → Move q b { b with toLedger := b.toLedger.suspend f }
  | finish {i : Fin n} {f : ℕ} :
      b.stage i = .running f → Move q b { b with toLedger := b.toLedger.finish f }
  | leave {i : Fin n} {f : ℕ} :
      b.stage i = .running f → b.Alone i f → Move q b (b.put (b.toLedger.leave f) i (.left f))
  | requeue {i : Fin n} {f : ℕ} :
      b.stage i = .left f → q f → Move q b (b.put (b.toLedger.schedule [.fiber f] (-1)) i .idle)
  | drop {i : Fin n} {f : ℕ} : b.stage i = .left f → Move q b (b.put b.toLedger i .idle)
  /-- The fiber is reset, after its function has ended. -/
  | retire {i : Fin n} {f : ℕ} :
      b.stage i = .left f → b.Alone i f → (∀ T, b.ticket f = some T → T ∈ b.finished) →
      Move q b (b.put (b.toLedger.load f none) i .idle)

end Eva01.Runtime
