import Eva01.Lib.LockOrder
import Eva01.Mutex.Guards
import Mathlib

/-!
The mutexes of the library, and the order in which its functions take them.

A manager `i` (an `IOManager`, with its `Scheduler` and `TimerManager` parts) has three mutexes, all
called `m_mutex`, and one in each of its `FdContext`s. Then there are the lock of the `FdManager`,
that of the `LoggerManager`, one in each logger and one in each appender, and the two that the
compiler puts around the construction of the singletons.

Each function is given by its lock skeleton, with the functions it calls while it holds a lock. The
shapes that have to be looked at twice:
- `schedule` calls `tickle` under the scheduler's mutex, and `tickle` writes a log line and then to
  the pipe, by a `write` that is hooked and looks the descriptor up in the `FdManager`;
- an event that is cancelled or reported is handed to `schedule` under the lock of its context, and
  the scheduler is the one the event was added from, which may be another one;
- `shouldStop` asks for timers under the scheduler's mutex, so `addTimer` must not `tickle` under
  that of the timers, and does not;
- fibers write a log line when they are made and when they are destroyed, which may be under a lock.

Three things are taken for granted, so that a section that is begun ends:
- the search for a task meets none of another thread, on which it would go round for ever;
- the guards of an `RWMutex` release it, which they do if `m_locked`, which has no initialiser, is
  set (`guard_calls`);
- the pipe has room for what `tickle` writes, so that the `write` does not block.

The descriptors of the tickle pipe and of epoll are not known to the `FdManager`, which only learns
of sockets. A thread waits for other things than locks in `start`, with the scheduler's mutex held,
for threads that take no lock until they have notified it, and in `stop`, with nothing held; `stop`
is two calls here, before and behind that. An assertion that fails ends the program and is no call.
-/

namespace Eva01.Locks

open Eva01.Lib.Runs Eva01.Lib.LockOrder

inductive Lock
  /-- The construction of the `LoggerManager`. -/
  | loggerInstance
  | loggerManager
  /-- `mtx` of an `FdContext` -/
  | fdContext (i fd : ℕ)
  | scheduler (i : ℕ)
  /-- `m_mutex` of the `IOManager`, for `m_fd_contexts`. -/
  | contexts (i : ℕ)
  | timers (i : ℕ)
  /-- The construction of the `FdManager`. -/
  | fdInstance
  | fdManager
  | logger (g : ℕ)
  | appender (p : ℕ)
  deriving DecidableEq, Repr

@[simp]
def rank : Lock → ℕ
  | .loggerInstance => 0
  | .loggerManager => 1
  | .fdContext _ _ => 2
  | .scheduler _ => 3
  | .contexts _ => 4
  | .timers _ => 5
  | .fdInstance => 6
  | .fdManager => 7
  | .logger _ => 8
  | .appender _ => 9

/-- A section under the lock, in which no other is taken. -/
def lone (m : Mode) (l : Lock) : Code Lock := .guard m l .skip

/-! ### Logging -/

namespace Logger

/-- The logger hands the event to its appenders, whose `log` is a section of each. -/
def log (g : ℕ) : Code Lock :=
  .guard .exclusive (.logger g) (.many (.pick fun p => lone .exclusive (.appender p)))

/-- `addLogAppender`, `delLogAppender` and `clearLogAppenders`. -/
def addLogAppender (g : ℕ) : Code Lock := lone .exclusive (.logger g)

end Logger

/-- A log statement, to any logger. -/
def statement : Code Lock := .opt (.pick Logger.log)

/-- `flush()` of a stream appender and `reopen()` of a file appender. -/
def flush (p : ℕ) : Code Lock := lone .exclusive (.appender p)

/-- `LoggerManager::Instance::Get()`; the constructor gives the root logger its appender. -/
def loggerGet : Code Lock := .opt (.guard .exclusive .loggerInstance (Logger.addLogAppender 0))

def getLogger : Code Lock :=
  .seq loggerGet (.guard .exclusive .loggerManager (.opt (.pick Logger.addLogAppender)))

/-! ### Descriptors -/

namespace FdManager

/-- `FdMgr::Get()` -/
def Get : Code Lock := .opt (lone .exclusive .fdInstance)

def get : Code Lock :=
  .seq Get (.opt (.seq (lone .shared .fdManager) (.opt (lone .exclusive .fdManager))))

def del : Code Lock := .seq Get (lone .exclusive .fdManager)

end FdManager

/-- A hooked call on a descriptor that has no entry: it is looked up, and then it is the system's. -/
def unknown : Code Lock := .opt (.seq FdManager.Get (lone .shared .fdManager))

/-! ### The manager -/

section Manager

variable (i : ℕ)

namespace Scheduler

/-- A log line, and a `write` that finds room. -/
def tickle : Code Lock := .opt (.seq statement unknown)

def schedule : Code Lock := .guard .exclusive (.scheduler i) (.opt tickle)

end Scheduler

namespace TimerManager

/-- Both of them: the one that makes the timer and the one that puts it into the set. -/
def addTimer : Code Lock := .seq (lone .exclusive (.timers i)) (.opt Scheduler.tickle)

/-- The last reference to a timer holds what its function holds, maybe a fiber. -/
def cancel : Code Lock := .guard .exclusive (.timers i) statement

def refresh : Code Lock := .seq (lone .exclusive (.timers i)) (.opt (addTimer i))

def getNextTimeMs : Code Lock := lone .shared (.timers i)

def hasTimers : Code Lock := lone .shared (.timers i)

def getExpiredFuncs : Code Lock :=
  .seq (lone .shared (.timers i)) (.opt (.seq (lone .exclusive (.timers i)) (.many statement)))

end TimerManager

namespace IOManager

/-- `FdContext::scheduleEvent`: the event goes to the scheduler it was added from. -/
def wake : Code Lock := .pick Scheduler.schedule

/-- Behind the look into the table: the lock of the context, maybe a main fiber that is made. -/
def addEvent (fd : ℕ) : Code Lock :=
  .seq (lone .shared (.contexts i))
    (.seq (.either (lone .exclusive (.contexts i)) (lone .shared (.contexts i)))
      (.guard .exclusive (.fdContext i fd) statement))

def delEvent (fd : ℕ) : Code Lock :=
  .seq (lone .shared (.contexts i)) (.opt (lone .exclusive (.fdContext i fd)))

def cancelEvent (fd : ℕ) : Code Lock :=
  .seq (lone .shared (.contexts i)) (.opt (.guard .exclusive (.fdContext i fd) (.opt wake)))

/-- The read guard is unlocked before the lock of the context is taken. -/
def cancelAll (fd : ℕ) : Code Lock :=
  .seq (lone .shared (.contexts i))
    (.opt (.guard .exclusive (.fdContext i fd) (.seq statement (.seq (.opt wake) (.opt wake)))))

/-- What epoll reports: a line for an error, one if there is nothing to wake or epoll fails. -/
def scheduleEvent (fd : ℕ) : Code Lock :=
  .guard .exclusive (.fdContext i fd)
    (.seq statement (.seq statement (.seq (.opt wake) (.opt wake))))

end IOManager

namespace Scheduler

def start : Code Lock := lone .exclusive (.scheduler i)

/-- `stop()`, until it joins the threads. -/
def stop : Code Lock :=
  .seq statement (.seq (lone .exclusive (.scheduler i)) (.many tickle))

/-- `stop()`, when the threads are joined. -/
def stopped : Code Lock := lone .exclusive (.scheduler i)

/-- `~Scheduler` closes its three descriptors. -/
def destroy : Code Lock :=
  .guard .exclusive (.scheduler i) (.seq unknown (.seq unknown unknown))

/-- `run`, a search for a task that ends and the `tickle` behind it. -/
def take : Code Lock := .seq (lone .exclusive (.scheduler i)) (.opt tickle)

def shouldStop : Code Lock := .guard .exclusive (.scheduler i) (TimerManager.hasTimers i)

/-- `idle`, from one `Yield` to the next: a turn of the outer loop, with any number of waits, the
expired timers, and the events, of which those of the tickle pipe are read. -/
def idle : Code Lock :=
  .seq statement (.seq (shouldStop i) (.seq statement (.seq (.many (TimerManager.getNextTimeMs i))
    (.seq (TimerManager.getExpiredFuncs i) (.seq (.opt (schedule i))
      (.many (.either (.many unknown) (.pick (IOManager.scheduleEvent i)))))))))

end Scheduler

end Manager

/-- The hooked `close`; the manager is the one of the thread. -/
def close : Code Lock :=
  .opt (.seq FdManager.get
    (.opt (.seq (.opt (.pick fun i => .pick (IOManager.cancelAll i))) FdManager.del)))

/-! ### The calls -/

/-- What a thread calls while it holds no lock, from outside the library, in a fiber, or in the loops
of `run` and `idle`. The other hooked functions are made of these: of look-ups, of `addTimer`,
`addEvent` and `cancel`, with the `Yield` between them. -/
inductive Call
  | statement
  | addLogAppender (g : ℕ)
  | flush (p : ℕ)
  | getLogger
  | get
  | del
  | close
  | schedule (i : ℕ)
  | start (i : ℕ)
  | stop (i : ℕ)
  | stopped (i : ℕ)
  | destroy (i : ℕ)
  | take (i : ℕ)
  | idle (i : ℕ)
  | addTimer (i : ℕ)
  | cancel (i : ℕ)
  | refresh (i : ℕ)
  | addEvent (i fd : ℕ)
  | delEvent (i fd : ℕ)
  | cancelEvent (i fd : ℕ)
  | cancelAll (i fd : ℕ)

def Call.code : Call → Code Lock
  | .statement => Locks.statement
  | .addLogAppender g => Logger.addLogAppender g
  | .flush p => Locks.flush p
  | .getLogger => Locks.getLogger
  | .get => FdManager.get
  | .del => FdManager.del
  | .close => Locks.close
  | .schedule i => Scheduler.schedule i
  | .start i => Scheduler.start i
  | .stop i => Scheduler.stop i
  | .stopped i => Scheduler.stopped i
  | .destroy i => Scheduler.destroy i
  | .take i => Scheduler.take i
  | .idle i => Scheduler.idle i
  | .addTimer i => TimerManager.addTimer i
  | .cancel i => TimerManager.cancel i
  | .refresh i => TimerManager.refresh i
  | .addEvent i fd => IOManager.addEvent i fd
  | .delEvent i fd => IOManager.delEvent i fd
  | .cancelEvent i fd => IOManager.cancelEvent i fd
  | .cancelAll i fd => IOManager.cancelAll i fd

/-- The threads do nothing with the locks but by these calls. -/
def Calls {T : Type*} (_ : State T Lock) : Act T Lock → Prop
  | .call _ p => ∃ c : Call, c.code.Trace p
  | .go _ => True

/-! ### The guards -/

/-- How a guard takes its lock. -/
def mode : Mutex.GuardClass → Mode
  | .read => .shared
  | .write => .exclusive

/-- What a call on an `RWMutex` does. -/
def event (l : Lock) : Mutex.LockCall → Event Lock
  | .rdlock => .acquire .shared l
  | .wrlock => .acquire .exclusive l
  | .unlock => .release l

/-- The calls of a guard that knows what it holds are those of a section: if it is left alone, and
also if it is unlocked before its end, as in `cancelAll`. -/
lemma guard_calls (c : Mutex.GuardClass) (uninit : Bool) (h : c = .read ∨ uninit = true) (l : Lock)
    (ops : List Mutex.GuardOp) (hops : ops = [] ∨ ops = [.unlock]) :
    (lone (mode c) l).Trace ((c.destroy (c.live uninit ops)).calls.map (event l)) := by
  have hcalls : (c.destroy (c.live uninit ops)).calls.map (event l) =
      .acquire (mode c) l :: ([] ++ [.release l]) := by
    cases c with
    | read => rcases hops with rfl | rfl <;> rfl
    | write =>
      obtain rfl : uninit = true := h.resolve_left Mutex.GuardClass.noConfusion
      rcases hops with rfl | rfl <;> rfl
  rw [hcalls]
  exact .guard .skip

/-! ### The order -/

section Order

variable {i fd r : ℕ}

lemma lone_above {m : Mode} {l : Lock} (h : r ≤ rank l) : (lone m l).Above rank r := ⟨h, trivial⟩

lemma statement_above (h : r ≤ 8) : statement.Above rank r := by
  refine Code.Above.opt fun g => ⟨h, fun p => ?_⟩
  exact lone_above (Nat.le_refl 9)

lemma Get_above (h : r ≤ 6) : FdManager.Get.Above rank r := (lone_above h).opt

lemma unknown_above (h : r ≤ 6) : unknown.Above rank r := by
  refine Code.Above.opt ⟨Get_above h, lone_above ?_⟩
  exact h.trans (by simp)

lemma tickle_above (h : r ≤ 6) : Scheduler.tickle.Above rank r :=
  Code.Above.opt ⟨statement_above (by omega), unknown_above h⟩

lemma schedule_above (h : r ≤ 3) : (Scheduler.schedule i).Above rank r :=
  ⟨h, (tickle_above (by simp)).opt⟩

lemma wake_above (h : r ≤ 3) : IOManager.wake.opt.Above rank r :=
  Code.Above.opt fun _ => schedule_above h

lemma addTimer_above (h : r ≤ 5) : (TimerManager.addTimer i).Above rank r :=
  ⟨lone_above h, (tickle_above (by omega)).opt⟩

lemma get_above (h : r ≤ 6) : FdManager.get.Above rank r := by
  have hread : r ≤ rank .fdManager := h.trans (by simp)
  exact ⟨Get_above h, Code.Above.opt ⟨lone_above hread, (lone_above hread).opt⟩⟩

lemma del_above (h : r ≤ 6) : FdManager.del.Above rank r :=
  ⟨Get_above h, lone_above (h.trans (by simp))⟩

lemma behind_table_above {a : Code Lock} (ha : a.Above rank 3) (h : r ≤ 2) :
    (Code.seq (lone .shared (.contexts i))
      (.opt (.guard .exclusive (.fdContext i fd) a))).Above rank r :=
  ⟨lone_above (h.trans (by simp)), Code.Above.opt ⟨h, ha⟩⟩

lemma cancelAll_above (h : r ≤ 2) : (IOManager.cancelAll i fd).Above rank r :=
  behind_table_above
    ⟨statement_above (by simp), wake_above (by simp), wake_above (by simp)⟩ h

lemma scheduleEvent_above (h : r ≤ 2) : (IOManager.scheduleEvent i fd).Above rank r :=
  ⟨h, statement_above (by simp), statement_above (by simp), wake_above (by simp),
    wake_above (by simp)⟩

lemma idle_above : (Scheduler.idle i).Above rank 0 := by
  have hlog : statement.Above rank 0 := statement_above (by simp)
  have hstop : (Scheduler.shouldStop i).Above rank 0 := ⟨by simp, lone_above (by simp)⟩
  have hexpired : (TimerManager.getExpiredFuncs i).Above rank 0 :=
    ⟨lone_above (by simp), Code.Above.opt ⟨lone_above (by simp), hlog⟩⟩
  have hnext : (TimerManager.getNextTimeMs i).Above rank 0 := lone_above (by simp)
  refine ⟨hlog, hstop, hlog, hnext, hexpired, (schedule_above (by simp)).opt, ?_⟩
  exact ⟨unknown_above (by simp), fun fd => scheduleEvent_above (by simp)⟩

theorem code_above (c : Call) : c.code.Above rank 0 := by
  have hlog : statement.Above rank 0 := statement_above (by simp)
  cases c with
  | statement => exact hlog
  | addLogAppender g => exact lone_above (by simp)
  | flush p => exact lone_above (by simp)
  | getLogger =>
    exact ⟨Code.Above.opt ⟨by simp, lone_above (by simp)⟩, by simp,
      Code.Above.opt fun g => lone_above (by simp)⟩
  | get => exact get_above (by simp)
  | del => exact del_above (by simp)
  | close =>
    refine Code.Above.opt ⟨get_above (by simp), Code.Above.opt ⟨?_, del_above (by simp)⟩⟩
    exact Code.Above.opt fun i fd => cancelAll_above (by simp)
  | schedule i => exact schedule_above (by simp)
  | start i => exact lone_above (by simp)
  | stop i => exact ⟨hlog, lone_above (by simp), tickle_above (by simp)⟩
  | stopped i => exact lone_above (by simp)
  | destroy i =>
    exact ⟨by simp, unknown_above (by simp), unknown_above (by simp), unknown_above (by simp)⟩
  | take i => exact ⟨lone_above (by simp), (tickle_above (by simp)).opt⟩
  | idle i => exact idle_above
  | addTimer i => exact addTimer_above (by simp)
  | cancel i => exact ⟨by simp, statement_above (by simp)⟩
  | refresh i => exact ⟨lone_above (by simp), (addTimer_above (by simp)).opt⟩
  | addEvent i fd =>
    exact ⟨lone_above (by simp), ⟨lone_above (by simp), lone_above (by simp)⟩, by simp,
      statement_above (by simp)⟩
  | delEvent i fd => exact behind_table_above trivial (by simp)
  | cancelEvent i fd => exact behind_table_above (wake_above (by simp)) (by simp)
  | cancelAll i fd => exact cancelAll_above (by simp)

end Order

lemma Calls.ranked {T : Type*} {s : State T Lock} {a : Act T Lock} (h : Calls s a) :
    Ranked rank s a := by
  cases a with
  | call t p =>
    obtain ⟨c, hc⟩ := h
    have hlegal : Legal rank [] (p ++ []) := hc.legal (code_above c) (by simp) rfl
    rwa [List.append_nil] at hlegal
  | go t => trivial

/-- **The library's mutexes never deadlock**, as long as searches end, guards release and the pipe has
room. Whatever the threads have called so far, and however their sections were interleaved, the calls
under way can all be brought to their end; also if a reader does not overtake a writer that waits. -/
theorem locks_never_deadlock {T : Type} [Fintype T] [DecidableEq T] {s : State T Lock}
    (h : Reach State.step Calls {} s) :
    ∃ s', Reach State.step Granted s s' ∧ Quiet s' :=
  calls_end (h.mono fun _ _ => Calls.ranked)

/-- The locks on the way of `cancelEvent`, when it wakes somebody. -/
private def cancels : List (Event Lock) :=
  [.acquire .shared (.contexts 0), .release (.contexts 0), .acquire .exclusive (.fdContext 0 5),
    .acquire .exclusive (.scheduler 0), .release (.scheduler 0), .release (.fdContext 0 5)]

private def schedules : List (Event Lock) :=
  [.acquire .exclusive (.scheduler 0), .release (.scheduler 0)]

private lemma schedules_trace : (Scheduler.schedule 0).Trace schedules := .guard (.right .skip)

private lemma cancels_trace : (IOManager.cancelEvent 0 5).Trace cancels := by
  have hwake : IOManager.wake.Trace schedules := .pick schedules_trace
  exact .seq (.guard .skip) (.left (.guard (.left hwake)))

/-- One thread cancels an event and waits for the scheduler's mutex, which another has. -/
theorem locks_never_deadlock_waiting :
    ∃ s : State (Fin 2) Lock, Reach State.step Calls {} s ∧ s.step (.go 0) = none ∧ s.todo 0 ≠ [] ∧
      ∃ s', Reach State.step Granted s s' ∧ Quiet s' := by
  have hrun : (run State.step (fun (_ : State (Fin 2) Lock) a =>
      match a with
      | .call _ p => decide (p = cancels ∨ p = schedules)
      | .go _ => true) {} [.call 0 cancels, .call 1 schedules, .go 0, .go 0, .go 0, .go 1]).any
      (fun s => (s.step (.go 0)).isNone && !(s.todo 0).isEmpty) = true := by
    decide +kernel
  obtain ⟨s, hs, hwait⟩ := exists_reach_of_run (G := Calls) (fun s a ha => by
    cases a with
    | call t p =>
      rcases of_decide_eq_true ha with rfl | rfl
      · exact ⟨.cancelEvent 0 5, cancels_trace⟩
      · exact ⟨.schedule 0, schedules_trace⟩
    | go t => trivial) hrun
  rw [Bool.and_eq_true, Option.isNone_iff_eq_none, Bool.not_eq_true', List.isEmpty_eq_false_iff] at hwait
  exact ⟨s, hs, hwait.1, hwait.2, locks_never_deadlock hs⟩

end Eva01.Locks
