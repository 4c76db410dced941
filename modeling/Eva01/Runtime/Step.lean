import Eva01.Runtime.State

/-!
The steps of the machine. One step of a worker is one section under a lock, one operation on an
atomic counter, one write of a fiber's state or one context swap; sections that schedule include
the `tickle` that `schedule` makes under its lock. What the code gets from outside, such as the
result of a system call, is an argument (`Choice`). A step that is not enabled, as any section under
`m_mutex` while another worker holds it, has no next state; after a failed assertion there is none.

`shouldStop()` is three steps under one lock of `m_mutex`, since `hasTimers()` is a section of its own
under the mutex of the timers, and the two counters are read one after the other: timers can be added
and the counters change in between.
-/

namespace Eva01.Runtime

open Eva01.IOManager (Event Events Report Assertion Fds Target sizeInc sizeDec)
open Eva01.Scheduler (Selected Selects scheduleRange)

variable {κ : Type*} {n N : ℕ}

/-! ### Scheduling -/

/-- The tasks made of what is scheduled; the functions get tickets from `T` on. -/
def issue : ℕ → List (Target ℕ (Func κ N)) → List (Work κ N)
  | _, [] => []
  | T, .fiber f :: ws => .fiber f :: issue T ws
  | T, .func g :: ws => .func g T :: issue (T + 1) ws

/-- The number of functions among what is scheduled. -/
def funcs : List (Target ℕ (Func κ N)) → ℕ
  | [] => 0
  | .fiber _ :: ws => funcs ws
  | .func _ :: ws => funcs ws + 1

namespace Shared

/-- Tickets from the next one on are for the thread `thr`, `k` of them. -/
def pin (s : Shared κ N) (k : ℕ) (thr : ℤ) : ℕ → ℤ :=
  fun T => if s.nextTicket ≤ T ∧ T < s.nextTicket + k then thr else s.pins T

/-- `schedule`, over a range; for a single one the range has one element. The byte is written when
the list was empty and some worker is idle. -/
def schedule (s : Shared κ N) (ws : List (Target ℕ (Func κ N))) (thr : ℤ) : Shared κ N :=
  let (tasks, needTickle) := scheduleRange s.tasks (issue s.nextTicket ws) thr
  { s with tasks := tasks
           pipe := if needTickle && 0 < s.idle then s.pipe + 1 else s.pipe
           nextTicket := s.nextTicket + funcs ws
           pins := s.pin (funcs ws) thr }

/-- The `schedule` calls of an event section: none if it fired nothing. -/
def deliver (s : Shared κ N) (ts : List (Target ℕ (Func κ N))) : Shared κ N :=
  if ts.isEmpty then s else s.schedule ts (-1)

/-- Writing a fiber. -/
def setFiber (s : Shared κ N) (f : ℕ) (fb : Fiber κ N) : Shared κ N :=
  { s with fibers := Function.update s.fibers f fb }

/-- `new Fiber(g)`, with its ticket. -/
def newFiber (s : Shared κ N) (g : Func κ N) (ticket : ℕ) : Shared κ N :=
  { s.setFiber s.nextFiber { ctx := .entry (some g), ticket := some ticket } with
    nextFiber := s.nextFiber + 1 }

/-- `schedule(Fiber::ptr(new Fiber(g)), thr)`. -/
def spawn (s : Shared κ N) (g : κ) (thr : ℤ) : Shared κ N :=
  let s' := (s.newFiber (.user g) s.nextTicket).schedule [.fiber s.nextFiber] thr
  { s' with nextTicket := s.nextTicket + 1, pins := s.pin 1 thr }

def crash (s : Shared κ N) (site : Site) : Shared κ N := { s with crashed := some site }

end Shared

/-- What an event context holds for the scheduler, as work. -/
def asWork : Target ℕ κ → Target ℕ (Func κ N)
  | .fiber f => .fiber f
  | .func g => .func (.user g)

/-! ### Choices -/

/-- How the underlying call of `do_io` comes back. -/
inductive IoResult
  | eintr
  /-- `EAGAIN`, or `EINPROGRESS` for `connect` -/
  | again
  | done
  deriving DecidableEq, Repr

/-- What a step gets from outside. -/
inductive Choice (N : ℕ)
  | tau
  | value (v : ℕ)
  | result (x : IoResult)
  /-- `epoll_wait` returns with these events. -/
  | poll (evs : List (PollEvent N))
  /-- `epoll_wait` returns with `EINTR`. -/
  | eintr
  deriving DecidableEq, Repr

/-! ### The code of a fiber -/

/-- Where a context begins when it is swapped in. Calling an empty `m_func` throws. -/
def Ctx.code : Ctx κ N → Code κ N
  | .entry none => .finState .except
  | .entry (some (.user k)) => .user k
  | .entry (some (.wake f)) => .wake f
  | .entry (some (.timeout i fd e)) => .timeout i fd e
  | .at (.user k) => .user k
  | .at (.io r t) => .ioResume r t
  | .dead => .dead

def Cont.code : Cont κ N → Code κ N
  | .run k => .user k
  | .suspend r => .yieldState .suspend r
  | .register r t => .evTest (.wait r t)

/-- The function of a timer made by the fiber `f`, and whether the timer recurs. -/
def TimerUse.func (f : ℕ) : TimerUse κ N → Func κ N × Bool
  | .call g recurring _ => (.user g, recurring)
  | .sleep _ => (.wake f, false)
  | .io r => (.timeout r.info r.fd r.event, false)

/-- What comes after the timer `t` has been added. -/
def TimerUse.cont (t : ℕ) : TimerUse κ N → Cont κ N
  | .call _ _ next => .run next
  | .sleep next => .suspend (.user next)
  | .io r => .register r (some t)

namespace Adding

def fd : Adding κ N → Fin N
  | .call fd _ _ _ => fd
  | .wait r _ => r.fd

def event : Adding κ N → Event
  | .call _ e _ _ => e
  | .wait r _ => r.event

def func : Adding κ N → Option κ
  | .call _ _ g _ => some g
  | .wait _ _ => none

/-- What comes after the event has been added. -/
def code : Adding κ N → Code κ N
  | .call _ _ _ next => .user next
  | .wait r t => .yieldState .suspend (.io r t)

end Adding

namespace Shared

/-- The section of an event operation other than `addEvent`, with the `schedule` calls it makes. -/
def event (s : Shared κ N) (o : IOManager.Op N ℕ κ) : Option (Shared κ N) :=
  match o.apply (s.fds.ctx o.fd) s.fds.pending with
  | .error a => some (s.crash (.event a))
  | .ok out =>
      if s.locked && !out.targets.isEmpty then none
      else some ({ s with fds := s.fds.put o.fd out }.deliver (out.targets.map asWork))

/-- The section of `addEvent`, called by the fiber `f`. -/
def addEvent (s : Shared κ N) (f : ℕ) (a : Adding κ N) : Shared κ N :=
  match IOManager.addEvent (s.fds.ctx a.fd) s.fds.pending a.event a.func f
      (decide ((s.fibers f).state = .running)) true with
  | .error x => s.crash (.event x)
  | .ok out => { s with fds := s.fds.put a.fd out }

/-- The section of `addTimer`, called by the fiber `f`: the state, the number of the timer, and
whether it is now the first. -/
def addTimer (addr : ℕ → ℕ) (s : Shared κ N) (f period deadline : ℕ) (use : TimerUse κ N) :
    Shared κ N × ℕ × Bool :=
  let (g, recurring) := use.func f
  let (m, t, changed) := s.timers.addTimer addr
    { period := period, next := deadline, func := g, recurring := recurring }
  ({ s with timers := m }, t, changed)

/-- The end of a call of `do_io`: its `timer_info` goes. -/
def endIo (s : Shared κ N) (i : ℕ) : Shared κ N :=
  { s with infos := Function.update s.infos i { s.infos i with alive := false } }

/-- The fiber `f` gives up control by `Yield` or `YieldReady`. -/
def leave (s : Shared κ N) (f : ℕ) (st : State) : Shared κ N :=
  { s.setFiber f { s.fibers f with state := st } with
    suspended := if st = .suspend then s.suspended ++ (s.fibers f).ticket.toList else s.suspended }

/-- The function of the fiber `f` ends. -/
def finish (s : Shared κ N) (f : ℕ) (st : State) : Shared κ N :=
  { s.setFiber f { s.fibers f with state := st } with
    finished := s.finished ++ (s.fibers f).ticket.toList }

end Shared

/-- A step at a point of the user's code. -/
def userStep (S : Setup κ n N) (s : Shared κ N) (k : κ) (ch : Choice N) :
    Option (Shared κ N × Code κ N) :=
  match S.prog k with
  | .ret => some (s, .finState .term)
  | .throw => some (s, .finState .except)
  | .branch next =>
      match ch with
      | .value v => some (s, .user (next v))
      | _ => none
  | .schedule gs thr next =>
      if s.locked then none
      else some (s.schedule (gs.map fun g => .func (.user g)) thr, .user next)
  | .spawn g thr next => if s.locked then none else some (s.spawn g thr, .user next)
  | .addTimer ms g recurring next =>
      some (s, .timerAdd ms (u64 (s.clock + ms)) (.call g recurring next))
  | .sleep ms next => some (s, .timerAdd ms (u64 (s.clock + ms)) (.sleep next))
  | .yieldReady next => some (s, .yieldState .ready (.user next))
  | .io fd e timeout retry next =>
      some ({ s with nextInfo := s.nextInfo + 1
                     infos := Function.update s.infos s.nextInfo { alive := true } },
        .ioCall { info := s.nextInfo, fd := fd, event := e, timeout := timeout, retry := retry,
                  next := next })
  | .addEvent fd e g next => some (s, .evTest (.call fd e g next))
  | .delEvent fd e next => (s.event (.delEvent fd e)).map fun s => (s, .user next)
  | .cancelEvent fd e next => (s.event (.cancelEvent fd e)).map fun s => (s, .user next)
  | .cancelAll fd next => (s.event (.cancelAll fd)).map fun s => (s, .user next)

/-- A step at a point of the library code that does not leave the fiber `f`. -/
def codeStep (S : Setup κ n N) (s : Shared κ N) (f : ℕ) (c : Code κ N) (ch : Choice N) :
    Option (Shared κ N × Code κ N) :=
  match c with
  | .user k => userStep S s k ch
  | .timerAdd period deadline use =>
      let (s', t, changed) := s.addTimer S.addr f period deadline use
      some (s', if changed then .tickleRead (use.cont t) else (use.cont t).code)
  | .tickleRead c => some (s, if s.idle = 0 then c.code else .tickleWrite c)
  | .tickleWrite c => some ({ s with pipe := s.pipe + 1 }, c.code)
  | .yieldState st r => some (s.leave f st, .yieldSwap st r)
  | .yieldSwap _ _ => none
  | .finState st => some (s.finish f st, .finSwap st)
  | .finSwap _ => none
  | .dead => some (s.crash .dead, .dead)
  | .wake f' =>
      if s.locked then none else some (s.schedule [.fiber f'] (-1), .finState .term)
  | .timeout i fd e =>
      if (s.infos i).alive && !(s.infos i).cancelled then
        some ({ s with infos := Function.update s.infos i { s.infos i with cancelled := true } },
          .timeoutFire i fd e)
      else some (s, .finState .term)
  | .timeoutFire _ fd e => (s.event (.cancelEvent fd e)).map fun s => (s, .finState .term)
  | .ioCall r =>
      match ch with
      | .result .eintr => if r.retry then some (s, .ioCall r) else some (s.endIo r.info, .user r.next)
      | .result .again => some (s, .ioArm r)
      | .result .done => some (s.endIo r.info, .user r.next)
      | _ => none
  | .ioArm r =>
      match r.timeout with
      | none => some (s, .evTest (.wait r none))
      | some ms => some (s, .timerAdd ms (u64 (s.clock + ms)) (.io r))
  | .evTest a =>
      match IOManager.addEventTest (s.fds.ctx a.fd) a.event with
      | .error x => some (s.crash (.event x), .evTest a)
      | .ok () => some (s, .evAdd a)
  | .evAdd a => some (s.addEvent f a, a.code)
  | .ioResume r t =>
      match t with
      | none => some (s, .ioCheck r)
      | some t => some ({ s with timers := s.timers.cancel S.addr t }, .ioCheck r)
  | .ioCheck r =>
      if (s.infos r.info).cancelled || !r.retry then some (s.endIo r.info, .user r.next)
      else some (s, .ioCall r)

/-! ### Workers -/

/-- The `ASSERT` on a selected task. -/
def Shared.selectable (s : Shared κ N) : Work κ N → Bool
  | .fiber f => (s.fibers f).state != .running
  | .func _ _ => true

/-- What `shouldStop()` answers if nothing happens while it is executed. -/
def Shared.shouldStop (s : Shared κ N) : Bool :=
  !s.timers.hasTimers && s.autoStop && s.stopping && s.tasks.isEmpty && s.active == 0 &&
    s.fds.pending == 0

/-- The conditions of `shouldStop()` from behind `hasTimers()` to `m_active_threads == 0`. The flags
and the list are only written under `m_mutex`, which is held. -/
def Shared.inactive (s : Shared κ N) : Bool :=
  s.autoStop && s.stopping && s.tasks.isEmpty && s.active == 0

/-- `EPOLL_WAIT_TIMEOUT_MS` -/
def epollWaitTimeoutMs : ℕ := 3000

/-- The timeout that `idle` passes to `epoll_wait`. -/
def Shared.waitMs (s : Shared κ N) : ℕ :=
  match s.timers.getNextTimeMs s.clock with
  | none => epollWaitTimeoutMs
  | some ms => if ms < epollWaitTimeoutMs then ms else epollWaitTimeoutMs

/-- What `epoll_wait` may report: a byte in the pipe, or events that are registered, or an error on
a descriptor that is. -/
def Shared.reportable (s : Shared κ N) : PollEvent N → Bool
  | .tickle => 0 < s.pipe
  | .io fd r =>
      let m := (s.fds.ctx fd).events
      m != .none && (r.events != .none || r.error) && r.events.diff m == .none

/-- The descriptor of an entry; that of the pipe is no descriptor of the program. -/
def PollEvent.key : PollEvent N → Option (Fin N)
  | .tickle => none
  | .io fd _ => some fd

/-- `epoll_wait`, called to wait up to `deadline`, may return with `evs`. -/
def Shared.pollable (s : Shared κ N) (deadline : ℕ) (evs : List (PollEvent N)) : Bool :=
  evs.all s.reportable && decide (evs.map PollEvent.key).Nodup &&
    (!evs.isEmpty || decide (deadline ≤ s.clock))

/-- The section that selects a task. -/
def selectStep (S : Setup κ n N) (i : Fin n) (s : Shared κ N) (w : Worker κ N) :
    Option (Shared κ N × Worker κ N) :=
  if s.locked then none
  else
    match S.sel s.selectable i s.tasks with
    | .nothing => some (s, { w with pc := .popped none (!s.tasks.isEmpty) })
    | .spins => some ({ s with locked := true }, { w with pc := .spin })
    | .fails => some (s.crash .run, w)
    | .took tk rest =>
        some ({ s with tasks := rest }, { w with pc := .popped (some tk) (!rest.isEmpty) })

/-- The branches on `tk`. -/
def dispatchStep (s : Shared κ N) (w : Worker κ N) (tk : Option (Job κ N)) :
    Shared κ N × Worker κ N :=
  match tk with
  | none => (s, { w with pc := .idleTest })
  | some ⟨.fiber f, _⟩ =>
      -- a finished fiber falls through to the branch of an idle worker
      if (s.fibers f).state.isDone then (s, { w with pc := .idleTest })
      else (s, { w with pc := .call .fiber f })
  | some ⟨.func g T, _⟩ =>
      match w.funcFiber with
      | some f =>
          (s.setFiber f { ctx := .entry (some g), ticket := some T },
            { w with pc := .call (.func g T) f, funcFiber := none })
      | none => (s.newFiber g T, { w with pc := .call (.func g T) s.nextFiber })

/-- The two swaps out of a fiber, and the steps inside it. -/
def execStep (S : Setup κ n N) (s : Shared κ N) (w : Worker κ N) (b : Branch κ N) (f : ℕ)
    (c : Code κ N) (ch : Choice N) : Option (Shared κ N × Worker κ N) :=
  match c with
  | .yieldSwap st r =>
      some (s.setFiber f { s.fibers f with ctx := .at r, seg := (s.fibers f).seg + 1 },
        { w with pc := .back b f st })
  | .finSwap st =>
      some (s.setFiber f { s.fibers f with ctx := .dead, seg := (s.fibers f).seg + 1 },
        { w with pc := .back b f st })
  | c => (codeStep S s f c ch).map fun x => (x.1, { w with pc := .exec b f x.2 })

/-- The segment of `f` that the worker `i` begins, for the trace. -/
def Shared.began (s : Shared κ N) (i f : ℕ) : List (ℕ × ℕ × ℕ) :=
  (s.fibers f).ticket.toList.map fun T => (T, (s.fibers f).seg, i)

/-- A step of `idle`. -/
def idleStep (S : Setup κ n N) (s : Shared κ N) (w : Worker κ N) (ch : Choice N) :
    Option (Shared κ N × Worker κ N) :=
  match w.pc with
  | .stopTest =>
      if s.locked then none
      else if s.timers.hasTimers then some (s, { w with pc := .wait })
      else some ({ s with locked := true }, { w with pc := .stopActive })
  | .stopActive =>
      if s.inactive then some (s, { w with pc := .stopPending })
      else some ({ s with locked := false }, { w with pc := .wait })
  | .stopPending =>
      if s.fds.pending = 0 then
        some ({ s with locked := false }, { w with pc := .decIdle, idleDone := true })
      else some ({ s with locked := false }, { w with pc := .wait })
  | .wait => some (s, { w with pc := .blocked (s.clock + s.waitMs) })
  | .blocked deadline =>
      match ch with
      | .eintr => some (s, { w with pc := .wait })
      | .poll evs => if s.pollable deadline evs then some (s, { w with pc := .expireNow evs }) else none
      | _ => none
  | .expireNow evs => some (s, { w with pc := .expireRead s.clock evs })
  | .expireRead now evs =>
      some (s, { w with pc := if s.timers.hasTimers then .expireWrite now evs else .events evs })
  | .expireWrite now evs =>
      let (m, gs) := s.timers.getExpiredFuncs S.addr now
      some ({ s with timers := m },
        { w with pc := if gs.isEmpty then .events evs else .expireSched gs evs })
  | .expireSched gs evs =>
      if s.locked then none
      else some (s.schedule (gs.map .func) (-1), { w with pc := .events evs })
  | .events [] => some (s, { w with pc := .decIdle })
  | .events (.tickle :: evs) => some (s, { w with pc := .drain evs })
  | .events (.io fd r :: evs) =>
      (s.event (.scheduleEvent fd r)).map fun s => (s, { w with pc := .events evs })
  | .drain evs =>
      if s.pipe = 0 then some (s, { w with pc := .events evs })
      else some ({ s with pipe := s.pipe - 256 }, { w with pc := .drain evs })
  | _ => none

/-- A step of the worker `i`. -/
def workerStep (S : Setup κ n N) (i : Fin n) (s : Shared κ N) (w : Worker κ N) (ch : Choice N) :
    Option (Shared κ N × Worker κ N) :=
  match w.pc with
  | .select => selectStep S i s w
  | .popped tk needTickle =>
      some (if tk.isSome then { s with active := sizeInc s.active } else s,
        { w with pc := if needTickle then .tickleRead tk else .dispatch tk })
  | .tickleRead tk =>
      some (s, { w with pc := if s.idle = 0 then .dispatch tk else .tickleWrite tk })
  | .tickleWrite tk => some ({ s with pipe := s.pipe + 1 }, { w with pc := .dispatch tk })
  | .dispatch tk => some (dispatchStep s w tk)
  | .call b f =>
      if (s.fibers f).state = .running ∨ (s.fibers f).state = .term then some (s.crash .call, w)
      else some (s.setFiber f { s.fibers f with state := .running }, { w with pc := .swapIn b f })
  | .swapIn b f =>
      some ({ s with trace := s.trace ++ s.began i f },
        { w with pc := .exec b f (s.fibers f).ctx.code })
  | .exec b f c => execStep S s w b f c ch
  | .back b f st => some ({ s with active := sizeDec s.active }, { w with pc := .check b f st })
  | .check b f st =>
      if (s.fibers f).state = .ready then some (s, { w with pc := .requeue b f })
      else
        match b with
        | .fiber => some (s, { w with pc := .select })
        | .func _ _ => some (s, { w with pc := .checkDone f st })
  | .requeue _ f =>
      -- the fiber goes back without the thread it was scheduled for
      if s.locked then none else some (s.schedule [.fiber f] (-1), { w with pc := .select })
  | .checkDone f _ =>
      some (s, { w with pc := if (s.fibers f).state.isDone then .retire f else .select })
  | .retire f => some (s.setFiber f {}, { w with pc := .select, funcFiber := some f })
  | .idleTest => some (s, { w with pc := if w.idleDone then .exited else .incIdle })
  | .incIdle => some ({ s with idle := sizeInc s.idle }, { w with pc := .stopTest })
  | .decIdle => some ({ s with idle := sizeDec s.idle }, { w with pc := .select })
  | .spin | .exited => none
  | _ => idleStep S s w ch

lemma Shared.shouldStop_eq (s : Shared κ N) :
    s.shouldStop = (!s.timers.hasTimers && (s.inactive && s.fds.pending == 0)) := by
  simp only [Shared.shouldStop, Shared.inactive, Bool.and_assoc]

/-- **The three steps of `shouldStop()` together**: a worker that the others leave alone ends its idle
fiber if `shouldStop` holds, and waits otherwise. -/
theorem shouldStop_alone (S : Setup κ n N) (i : Fin n) {s : Shared κ N} {w : Worker κ N}
    (hw : w.pc = .stopTest) (hfree : s.locked = false) :
    ∃ k, (fun r => r.bind fun y => workerStep S i y.1 y.2 .tau)^[k] (some (s, w)) =
      some (s, if s.shouldStop then { w with pc := .decIdle, idleDone := true }
        else { w with pc := .wait }) := by
  obtain ⟨pc, ff, d⟩ := w
  cases hw
  have hkeep : { s with locked := false } = s := by rw [← hfree]
  have hactive : workerStep S i { s with locked := true } ⟨.stopActive, ff, d⟩ .tau =
      if s.inactive then some ({ s with locked := true }, ⟨.stopPending, ff, d⟩)
      else some ({ s with locked := false }, ⟨.wait, ff, d⟩) := rfl
  have hpending : workerStep S i { s with locked := true } ⟨.stopPending, ff, d⟩ .tau =
      if s.fds.pending = 0 then some ({ s with locked := false }, ⟨.decIdle, ff, true⟩)
      else some ({ s with locked := false }, ⟨.wait, ff, d⟩) := rfl
  rw [hkeep] at hactive hpending
  rw [Shared.shouldStop_eq]
  cases ht : s.timers.hasTimers with
  | true => exact ⟨1, by simp [workerStep, idleStep, hfree, ht]⟩
  | false =>
      have htest : workerStep S i s ⟨.stopTest, ff, d⟩ .tau =
          some ({ s with locked := true }, ⟨.stopActive, ff, d⟩) := by
        simp [workerStep, idleStep, hfree, ht]
      cases hin : s.inactive with
      | false =>
          refine ⟨2, ?_⟩
          simp only [Function.iterate_succ_apply, Function.iterate_zero, id, Option.bind_some, htest,
            hactive, hin]
          rfl
      | true =>
          refine ⟨3, ?_⟩
          simp only [Function.iterate_succ_apply, Function.iterate_zero, id, Option.bind_some, htest,
            hactive, hin, if_true, hpending]
          by_cases hp : s.fds.pending = 0 <;> simp [hp]

/-! ### The machine -/

/-- The thread has ended. -/
def Worker.exited (w : Worker κ N) : Bool :=
  match w.pc with
  | .exited => true
  | _ => false

/-- The actions: a step of a worker; the calls of other threads, `addTimer` with its further steps;
the parts of `stop()`; the clock. -/
inductive Act (κ : Type*) (n N : ℕ)
  | worker (i : Fin n) (ch : Choice N)
  | schedule (gs : List κ) (thr : ℤ)
  | spawn (g : κ) (thr : ℤ)
  | addTimer (ms : ℕ) (g : κ) (recurring : Bool)
  | external (k : ℕ)
  | stop
  | stopTickle
  | join
  | clock (t : ℕ)

namespace Sys

/-- The machine after a step of the worker `i`. -/
def put (x : Sys κ n N) (i : Fin n) (s : Shared κ N) (w : Worker κ N) : Sys κ n N :=
  { x with shared := s, workers := Function.update x.workers i w }

/-- The next step of a thread in `addTimer`, which is at `e`; the other threads are at `ext`. -/
def externalStep (S : Setup κ n N) (x : Sys κ n N) (e : External κ) (ext : List (External κ)) :
    Sys κ n N :=
  match e with
  | .timerAdd period deadline g recurring =>
      let (m, _, changed) := x.shared.timers.addTimer S.addr
        { period := period, next := deadline, func := .user g, recurring := recurring }
      { x with shared := { x.shared with timers := m }
               ext := if changed then .tickleRead :: ext else ext }
  | .tickleRead => { x with ext := if x.shared.idle = 0 then ext else .tickleWrite :: ext }
  | .tickleWrite => { x with shared := { x.shared with pipe := x.shared.pipe + 1 }, ext := ext }

def step (S : Setup κ n N) (x : Sys κ n N) (a : Act κ n N) : Option (Sys κ n N) :=
  if x.shared.crashed.isSome then none
  else
    match a with
    | .worker i ch =>
        (workerStep S i x.shared (x.workers i) ch).map fun r => x.put i r.1 r.2
    | .schedule gs thr =>
        if x.shared.locked then none
        else some { x with shared := x.shared.schedule (gs.map fun g => .func (.user g)) thr }
    | .spawn g thr =>
        if x.shared.locked then none else some { x with shared := x.shared.spawn g thr }
    | .addTimer ms g recurring =>
        some { x with ext := .timerAdd ms (u64 (x.shared.clock + ms)) g recurring :: x.ext }
    | .external k => (x.ext[k]?).map fun e => x.externalStep S e (x.ext.eraseIdx k)
    | .stop =>
        if x.shared.locked || x.ctl != .running then none
        else some { x with shared := { x.shared with autoStop := true, stopping := true }
                           ctl := .tickling n }
    | .stopTickle =>
        match x.ctl with
        | .tickling 0 => some { x with ctl := .joining }
        | .tickling (k + 1) =>
            some { x with ctl := if x.shared.idle = 0 then .tickling k else .writing k }
        | .writing k =>
            some { x with shared := { x.shared with pipe := x.shared.pipe + 1 }, ctl := .tickling k }
        | _ => none
    | .join =>
        if x.ctl = .joining ∧ (∀ i, (x.workers i).exited = true) ∧ x.shared.locked = false then
          some { x with shared := { x.shared with autoStop := false, stopping := false }
                        ctl := .stopped }
        else none
    | .clock t => some { x with shared := { x.shared with clock := t } }

end Sys

/-- `k` steps of the worker `i` that need nothing from outside. -/
def steps (i : Fin n) (k : ℕ) : List (Act κ n N) := List.replicate k (.worker i .tau)

end Eva01.Runtime
