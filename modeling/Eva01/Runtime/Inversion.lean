import Eva01.Runtime.Step

/-!
What a step can do, said once. `CodeStep` and `WorkerStep` have one constructor for each way a
step goes, with everything it tests and writes; `codeStep_inv` and `workerStep_inv` read them off
the step functions. All invariants of the machine are proved by cases over these two.
-/

namespace Eva01.Runtime

open Eva01.IOManager (Event Events Report Assertion Fds Target sizeInc sizeDec)
open Eva01.Scheduler (Selected Selects)

variable {κ : Type*} {n N : ℕ}

/-! ### Event operations -/

/-- The event operation, other than `addEvent`, that is made at a point, and what comes after. -/
def Code.eventOp (S : Setup κ n N) : Code κ N → Option (IOManager.Op N ℕ κ × Code κ N)
  | .timeoutFire _ fd e => some (.cancelEvent fd e, .finState .term)
  | .user k =>
      match S.prog k with
      | .delEvent fd e next => some (.delEvent fd e, .user next)
      | .cancelEvent fd e next => some (.cancelEvent fd e, .user next)
      | .cancelAll fd next => some (.cancelAll fd, .user next)
      | _ => none
  | _ => none

theorem Shared.event_cases {s s' : Shared κ N} {o : IOManager.Op N ℕ κ} (h : s.event o = some s') :
    (∃ a, o.apply (s.fds.ctx o.fd) s.fds.pending = .error a ∧ s' = s.crash (.event a)) ∨
    (∃ out, o.apply (s.fds.ctx o.fd) s.fds.pending = .ok out ∧
      (s.locked = true → out.targets = []) ∧
      s' = { s with fds := s.fds.put o.fd out }.deliver (out.targets.map asWork)) := by
  unfold Shared.event at h
  split at h
  · rename_i a ha
    exact .inl ⟨a, ha, (Option.some.inj h).symm⟩
  · rename_i out hout
    split at h
    · cases h
    · rename_i hl
      refine .inr ⟨out, hout, fun hlocked => ?_, (Option.some.inj h).symm⟩
      simpa [hlocked] using hl

/-! ### Inside a fiber -/

section Code

variable (S : Setup κ n N) (s : Shared κ N) (f : ℕ)

/-- A step of the fiber `f` from the state `s` that does not leave the fiber. -/
inductive CodeStep : Code κ N → Shared κ N → Code κ N → Prop
  | finish {k : κ} {st : State} :
      (S.prog k = .ret ∧ st = .term ∨ S.prog k = .throw ∧ st = .except) →
      CodeStep (.user k) s (.finState st)
  | branch {k : κ} {next : ℕ → κ} {v : ℕ} :
      S.prog k = .branch next → CodeStep (.user k) s (.user (next v))
  | schedule {k : κ} {gs : List κ} {thr : ℤ} {next : κ} :
      S.prog k = .schedule gs thr next → s.locked = false →
      CodeStep (.user k) (s.schedule (gs.map fun g => .func (.user g)) thr) (.user next)
  | spawn {k g : κ} {thr : ℤ} {next : κ} :
      S.prog k = .spawn g thr next → s.locked = false →
      CodeStep (.user k) (s.spawn g thr) (.user next)
  | makeTimer {k : κ} {ms : ℕ} {use : TimerUse κ N} :
      ((∃ g recurring next, S.prog k = .addTimer ms g recurring next ∧
          use = .call g recurring next) ∨
        ∃ next, S.prog k = .sleep ms next ∧ use = .sleep next) →
      CodeStep (.user k) s (.timerAdd ms (u64 (s.clock + ms)) use)
  | yieldReady {k next : κ} :
      S.prog k = .yieldReady next → CodeStep (.user k) s (.yieldState .ready (.user next))
  | io {k : κ} {fd : Fin N} {e : Event} {timeout : Option ℕ} {retry : Bool} {next : κ} :
      S.prog k = .io fd e timeout retry next →
      CodeStep (.user k)
        { s with nextInfo := s.nextInfo + 1
                 infos := Function.update s.infos s.nextInfo { alive := true } }
        (.ioCall { info := s.nextInfo, fd := fd, event := e, timeout := timeout, retry := retry,
                   next := next })
  | addEvent {k : κ} {fd : Fin N} {e : Event} {g next : κ} :
      S.prog k = .addEvent fd e g next → CodeStep (.user k) s (.evTest (.call fd e g next))
  | event {c c' : Code κ N} {o : IOManager.Op N ℕ κ} {s' : Shared κ N} :
      c.eventOp S = some (o, c') → s.event o = some s' → CodeStep c s' c'
  | timerAdd {period deadline t : ℕ} {use : TimerUse κ N} {s' : Shared κ N} {changed : Bool} :
      s.addTimer S.addr f period deadline use = (s', t, changed) →
      CodeStep (.timerAdd period deadline use) s'
        (if changed then .tickleRead (use.cont t) else (use.cont t).code)
  | tickleSkip {c : Cont κ N} : s.idle = 0 → CodeStep (.tickleRead c) s c.code
  | tickleRead {c : Cont κ N} : s.idle ≠ 0 → CodeStep (.tickleRead c) s (.tickleWrite c)
  | tickleWrite {c : Cont κ N} : CodeStep (.tickleWrite c) { s with pipe := s.pipe + 1 } c.code
  | yieldState {st : State} {r : Resume κ N} :
      CodeStep (.yieldState st r) (s.leave f st) (.yieldSwap st r)
  | finState {st : State} : CodeStep (.finState st) (s.finish f st) (.finSwap st)
  | dead : CodeStep .dead (s.crash .dead) .dead
  | wake {f' : ℕ} :
      s.locked = false → CodeStep (.wake f') (s.schedule [.fiber f'] (-1)) (.finState .term)
  | timeoutAct {i : ℕ} {fd : Fin N} {e : Event} :
      (s.infos i).alive = true → (s.infos i).cancelled = false →
      CodeStep (.timeout i fd e)
        { s with infos := Function.update s.infos i { s.infos i with cancelled := true } }
        (.timeoutFire i fd e)
  | timeoutSkip {i : ℕ} {fd : Fin N} {e : Event} :
      ((s.infos i).alive = false ∨ (s.infos i).cancelled = true) →
      CodeStep (.timeout i fd e) s (.finState .term)
  | ioEintr {r : Io κ N} : r.retry = true → CodeStep (.ioCall r) s (.ioCall r)
  | ioBlock {r : Io κ N} : CodeStep (.ioCall r) s (.ioArm r)
  | ioEnd {c : Code κ N} {r : Io κ N} :
      (c = .ioCall r ∨ c = .ioCheck r) → CodeStep c (s.endIo r.info) (.user r.next)
  | ioArmNone {r : Io κ N} : r.timeout = none → CodeStep (.ioArm r) s (.evTest (.wait r none))
  | ioArmSome {r : Io κ N} {ms : ℕ} :
      r.timeout = some ms → CodeStep (.ioArm r) s (.timerAdd ms (u64 (s.clock + ms)) (.io r))
  | evTest {a : Adding κ N} :
      (s.fds.ctx a.fd).events.has a.event = false → CodeStep (.evTest a) s (.evAdd a)
  | evTestFails {a : Adding κ N} {x : Assertion} :
      CodeStep (.evTest a) (s.crash (.event x)) (.evTest a)
  | evAdd {a : Adding κ N} : CodeStep (.evAdd a) (s.addEvent f a) a.code
  | ioResumeNone {r : Io κ N} : CodeStep (.ioResume r none) s (.ioCheck r)
  | ioResumeSome {r : Io κ N} {t : ℕ} :
      CodeStep (.ioResume r (some t)) { s with timers := s.timers.cancel S.addr t } (.ioCheck r)
  | ioRetry {r : Io κ N} :
      (s.infos r.info).cancelled = false → r.retry = true → CodeStep (.ioCheck r) s (.ioCall r)

end Code

section

variable {S : Setup κ n N} {s s' : Shared κ N} {f : ℕ} {ch : Choice N}

theorem userStep_inv {k : κ} {c' : Code κ N} (h : userStep S s k ch = some (s', c')) :
    CodeStep S s f (.user k) s' c' := by
  unfold userStep at h
  split at h
  case h_1 hp => cases h; exact .finish (.inl ⟨hp, rfl⟩)
  case h_2 hp => cases h; exact .finish (.inr ⟨hp, rfl⟩)
  case h_3 next hp =>
      split at h <;> cases h
      exact .branch hp
  case h_4 gs thr next hp =>
      split at h <;> cases h
      exact .schedule hp (by simpa using ‹¬ s.locked = true›)
  case h_5 g thr next hp =>
      split at h <;> cases h
      exact .spawn hp (by simpa using ‹¬ s.locked = true›)
  case h_6 ms g recurring next hp => cases h; exact .makeTimer (.inl ⟨g, recurring, next, hp, rfl⟩)
  case h_7 ms next hp => cases h; exact .makeTimer (.inr ⟨next, hp, rfl⟩)
  case h_8 next hp => cases h; exact .yieldReady hp
  case h_9 fd e timeout retry next hp => cases h; exact .io hp
  case h_10 fd e g next hp => cases h; exact .addEvent hp
  case h_11 fd e next hp =>
      obtain ⟨s₁, hs₁, heq⟩ := Option.map_eq_some_iff.1 h
      cases heq
      exact .event (by simp [Code.eventOp, hp]) hs₁
  case h_12 fd e next hp =>
      obtain ⟨s₁, hs₁, heq⟩ := Option.map_eq_some_iff.1 h
      cases heq
      exact .event (by simp [Code.eventOp, hp]) hs₁
  case h_13 fd next hp =>
      obtain ⟨s₁, hs₁, heq⟩ := Option.map_eq_some_iff.1 h
      cases heq
      exact .event (by simp [Code.eventOp, hp]) hs₁

theorem codeStep_inv {c c' : Code κ N} (h : codeStep S s f c ch = some (s', c')) :
    CodeStep S s f c s' c' := by
  cases c with
  | user k => exact userStep_inv h
  | timerAdd period deadline use => cases h; exact .timerAdd rfl
  | tickleRead c =>
      cases h
      by_cases hi : s.idle = 0
      · rw [if_pos hi]
        exact .tickleSkip hi
      · rw [if_neg hi]
        exact .tickleRead hi
  | tickleWrite c => cases h; exact .tickleWrite
  | yieldState st r => cases h; exact .yieldState
  | yieldSwap st r => cases h
  | finState st => cases h; exact .finState
  | finSwap st => cases h
  | dead => cases h; exact .dead
  | wake f' =>
      simp only [codeStep] at h
      split at h <;> cases h
      exact .wake (by simpa using ‹¬ s.locked = true›)
  | timeout i fd e =>
      simp only [codeStep] at h
      split at h
      · rename_i hb
        cases h
        simp only [Bool.and_eq_true, Bool.not_eq_true'] at hb
        exact .timeoutAct hb.1 hb.2
      · rename_i hb
        cases h
        refine .timeoutSkip ?_
        cases ha : (s.infos i).alive <;> simp_all
  | timeoutFire i fd e =>
      obtain ⟨s₁, hs₁, heq⟩ := Option.map_eq_some_iff.1 h
      cases heq
      exact .event rfl hs₁
  | ioCall r =>
      simp only [codeStep] at h
      split at h
      · split at h <;> cases h
        · exact .ioEintr ‹_›
        · exact .ioEnd (.inl rfl)
      · cases h; exact .ioBlock
      · cases h; exact .ioEnd (.inl rfl)
      · cases h
  | ioArm r =>
      simp only [codeStep] at h
      split at h <;> cases h
      · exact .ioArmNone ‹_›
      · exact .ioArmSome ‹_›
  | evTest a =>
      simp only [codeStep, IOManager.addEventTest] at h
      by_cases he : (s.fds.ctx a.fd).events.has a.event = true
      · simp only [he, if_true] at h
        cases h
        exact .evTestFails
      · simp only [he] at h
        cases h
        exact .evTest (by simpa using he)
  | evAdd a => cases h; exact .evAdd
  | ioResume r t =>
      cases t with
      | none => cases h; exact .ioResumeNone
      | some t => cases h; exact .ioResumeSome
  | ioCheck r =>
      simp only [codeStep] at h
      split at h
      · cases h; exact .ioEnd (.inr rfl)
      · rename_i hb
        cases h
        simp only [Bool.or_eq_true, Bool.not_eq_true', not_or, Bool.not_eq_true,
          Bool.not_eq_false] at hb
        exact .ioRetry hb.1 hb.2

end

/-! ### Workers -/

section Worker

variable (S : Setup κ n N) (i : Fin n) (s : Shared κ N)

/-- A step of the worker `i` from the state `s`. -/
inductive WorkerStep : Worker κ N → Shared κ N → Worker κ N → Prop
  | selectNothing {ff : Option ℕ} {d : Bool} :
      S.sel s.selectable i s.tasks = .nothing → s.locked = false →
      WorkerStep ⟨.select, ff, d⟩ s ⟨.popped none (!s.tasks.isEmpty), ff, d⟩
  | selectSpins {ff : Option ℕ} {d : Bool} :
      S.sel s.selectable i s.tasks = .spins → s.locked = false →
      WorkerStep ⟨.select, ff, d⟩ { s with locked := true } ⟨.spin, ff, d⟩
  | selectTook {ff : Option ℕ} {d : Bool} {tk : Job κ N} {rest : List (Job κ N)} :
      S.sel s.selectable i s.tasks = .took tk rest → s.selectable tk.work = true → s.locked = false →
      WorkerStep ⟨.select, ff, d⟩ { s with tasks := rest }
        ⟨.popped (some tk) (!rest.isEmpty), ff, d⟩
  | selectFails {ff : Option ℕ} {d : Bool} {tk : Job κ N} :
      tk ∈ s.tasks → s.selectable tk.work = false →
      WorkerStep ⟨.select, ff, d⟩ (s.crash .run) ⟨.select, ff, d⟩
  | poppedNone {ff : Option ℕ} {d need : Bool} :
      WorkerStep ⟨.popped none need, ff, d⟩ s
        ⟨if need then .tickleRead none else .dispatch none, ff, d⟩
  | poppedSome {ff : Option ℕ} {d need : Bool} {tk : Job κ N} :
      WorkerStep ⟨.popped (some tk) need, ff, d⟩ { s with active := sizeInc s.active }
        ⟨if need then .tickleRead (some tk) else .dispatch (some tk), ff, d⟩
  | tickleSkip {ff : Option ℕ} {d : Bool} {tk : Option (Job κ N)} :
      s.idle = 0 → WorkerStep ⟨.tickleRead tk, ff, d⟩ s ⟨.dispatch tk, ff, d⟩
  | tickleRead {ff : Option ℕ} {d : Bool} {tk : Option (Job κ N)} :
      s.idle ≠ 0 → WorkerStep ⟨.tickleRead tk, ff, d⟩ s ⟨.tickleWrite tk, ff, d⟩
  | tickleWrite {ff : Option ℕ} {d : Bool} {tk : Option (Job κ N)} :
      WorkerStep ⟨.tickleWrite tk, ff, d⟩ { s with pipe := s.pipe + 1 } ⟨.dispatch tk, ff, d⟩
  | dispatchNone {ff : Option ℕ} {d : Bool} :
      WorkerStep ⟨.dispatch none, ff, d⟩ s ⟨.idleTest, ff, d⟩
  | dispatchDone {ff : Option ℕ} {d : Bool} {f : ℕ} {thr : ℤ} :
      (s.fibers f).state.isDone = true →
      WorkerStep ⟨.dispatch (some ⟨.fiber f, thr⟩), ff, d⟩ s ⟨.idleTest, ff, d⟩
  | dispatchFiber {ff : Option ℕ} {d : Bool} {f : ℕ} {thr : ℤ} :
      (s.fibers f).state.isDone = false →
      WorkerStep ⟨.dispatch (some ⟨.fiber f, thr⟩), ff, d⟩ s ⟨.call .fiber f, ff, d⟩
  | dispatchReset {d : Bool} {f T : ℕ} {g : Func κ N} {thr : ℤ} :
      WorkerStep ⟨.dispatch (some ⟨.func g T, thr⟩), some f, d⟩
        (s.setFiber f { ctx := .entry (some g), ticket := some T }) ⟨.call (.func g T) f, none, d⟩
  | dispatchNew {d : Bool} {T : ℕ} {g : Func κ N} {thr : ℤ} :
      WorkerStep ⟨.dispatch (some ⟨.func g T, thr⟩), none, d⟩ (s.newFiber g T)
        ⟨.call (.func g T) s.nextFiber, none, d⟩
  | callFails {ff : Option ℕ} {d : Bool} {b : Branch κ N} {f : ℕ} :
      ((s.fibers f).state = .running ∨ (s.fibers f).state = .term) →
      WorkerStep ⟨.call b f, ff, d⟩ (s.crash .call) ⟨.call b f, ff, d⟩
  | call {ff : Option ℕ} {d : Bool} {b : Branch κ N} {f : ℕ} :
      (s.fibers f).state ≠ .running →
      WorkerStep ⟨.call b f, ff, d⟩ (s.setFiber f { s.fibers f with state := .running })
        ⟨.swapIn b f, ff, d⟩
  | swapIn {ff : Option ℕ} {d : Bool} {b : Branch κ N} {f : ℕ} :
      WorkerStep ⟨.swapIn b f, ff, d⟩ { s with trace := s.trace ++ s.began i f }
        ⟨.exec b f (s.fibers f).ctx.code, ff, d⟩
  | code {ff : Option ℕ} {d : Bool} {b : Branch κ N} {f : ℕ} {c c' : Code κ N} {s' : Shared κ N} :
      CodeStep S s f c s' c' → WorkerStep ⟨.exec b f c, ff, d⟩ s' ⟨.exec b f c', ff, d⟩
  | yieldSwap {ff : Option ℕ} {d : Bool} {b : Branch κ N} {f : ℕ} {st : State} {r : Resume κ N} :
      WorkerStep ⟨.exec b f (.yieldSwap st r), ff, d⟩
        (s.setFiber f { s.fibers f with ctx := .at r, seg := (s.fibers f).seg + 1 })
        ⟨.back b f st, ff, d⟩
  | finSwap {ff : Option ℕ} {d : Bool} {b : Branch κ N} {f : ℕ} {st : State} :
      WorkerStep ⟨.exec b f (.finSwap st), ff, d⟩
        (s.setFiber f { s.fibers f with ctx := .dead, seg := (s.fibers f).seg + 1 })
        ⟨.back b f st, ff, d⟩
  | back {ff : Option ℕ} {d : Bool} {b : Branch κ N} {f : ℕ} {st : State} :
      WorkerStep ⟨.back b f st, ff, d⟩ { s with active := sizeDec s.active } ⟨.check b f st, ff, d⟩
  | checkReady {ff : Option ℕ} {d : Bool} {b : Branch κ N} {f : ℕ} {st : State} :
      (s.fibers f).state = .ready →
      WorkerStep ⟨.check b f st, ff, d⟩ s ⟨.requeue b f, ff, d⟩
  | checkFiber {ff : Option ℕ} {d : Bool} {f : ℕ} {st : State} :
      (s.fibers f).state ≠ .ready → WorkerStep ⟨.check .fiber f st, ff, d⟩ s ⟨.select, ff, d⟩
  | checkFunc {ff : Option ℕ} {d : Bool} {g : Func κ N} {T f : ℕ} {st : State} :
      (s.fibers f).state ≠ .ready →
      WorkerStep ⟨.check (.func g T) f st, ff, d⟩ s ⟨.checkDone f st, ff, d⟩
  | requeue {ff : Option ℕ} {d : Bool} {b : Branch κ N} {f : ℕ} :
      s.locked = false →
      WorkerStep ⟨.requeue b f, ff, d⟩ (s.schedule [.fiber f] (-1)) ⟨.select, ff, d⟩
  | checkDone {ff : Option ℕ} {d : Bool} {f : ℕ} {st : State} :
      (s.fibers f).state.isDone = true →
      WorkerStep ⟨.checkDone f st, ff, d⟩ s ⟨.retire f, ff, d⟩
  | checkLeft {ff : Option ℕ} {d : Bool} {f : ℕ} {st : State} :
      (s.fibers f).state.isDone = false →
      WorkerStep ⟨.checkDone f st, ff, d⟩ s ⟨.select, ff, d⟩
  | retire {ff : Option ℕ} {d : Bool} {f : ℕ} :
      WorkerStep ⟨.retire f, ff, d⟩ (s.setFiber f {}) ⟨.select, some f, d⟩
  | idleEnds {ff : Option ℕ} : WorkerStep ⟨.idleTest, ff, true⟩ s ⟨.exited, ff, true⟩
  | idleTest {ff : Option ℕ} : WorkerStep ⟨.idleTest, ff, false⟩ s ⟨.incIdle, ff, false⟩
  | incIdle {ff : Option ℕ} {d : Bool} :
      WorkerStep ⟨.incIdle, ff, d⟩ { s with idle := sizeInc s.idle } ⟨.stopTest, ff, d⟩
  | decIdle {ff : Option ℕ} {d : Bool} :
      WorkerStep ⟨.decIdle, ff, d⟩ { s with idle := sizeDec s.idle } ⟨.select, ff, d⟩
  | stopTimers {ff : Option ℕ} {d : Bool} :
      s.timers.hasTimers = true → s.locked = false →
      WorkerStep ⟨.stopTest, ff, d⟩ s ⟨.wait, ff, d⟩
  | stopTest {ff : Option ℕ} {d : Bool} :
      s.timers.hasTimers = false → s.locked = false →
      WorkerStep ⟨.stopTest, ff, d⟩ { s with locked := true } ⟨.stopActive, ff, d⟩
  | stopActive {ff : Option ℕ} {d : Bool} :
      s.inactive = true → WorkerStep ⟨.stopActive, ff, d⟩ s ⟨.stopPending, ff, d⟩
  | stopBusy {ff : Option ℕ} {d : Bool} :
      s.inactive = false →
      WorkerStep ⟨.stopActive, ff, d⟩ { s with locked := false } ⟨.wait, ff, d⟩
  | stopYes {ff : Option ℕ} {d : Bool} :
      s.fds.pending = 0 →
      WorkerStep ⟨.stopPending, ff, d⟩ { s with locked := false } ⟨.decIdle, ff, true⟩
  | stopNo {ff : Option ℕ} {d : Bool} :
      s.fds.pending ≠ 0 →
      WorkerStep ⟨.stopPending, ff, d⟩ { s with locked := false } ⟨.wait, ff, d⟩
  | wait {ff : Option ℕ} {d : Bool} :
      WorkerStep ⟨.wait, ff, d⟩ s ⟨.blocked (s.clock + s.waitMs), ff, d⟩
  | eintr {ff : Option ℕ} {d : Bool} {t : ℕ} : WorkerStep ⟨.blocked t, ff, d⟩ s ⟨.wait, ff, d⟩
  | poll {ff : Option ℕ} {d : Bool} {t : ℕ} {evs : List (PollEvent N)} :
      s.pollable t evs = true → WorkerStep ⟨.blocked t, ff, d⟩ s ⟨.expireNow evs, ff, d⟩
  | expireNow {ff : Option ℕ} {d : Bool} {evs : List (PollEvent N)} :
      WorkerStep ⟨.expireNow evs, ff, d⟩ s ⟨.expireRead s.clock evs, ff, d⟩
  | expireNone {ff : Option ℕ} {d : Bool} {now : ℕ} {evs : List (PollEvent N)} :
      WorkerStep ⟨.expireRead now evs, ff, d⟩ s ⟨.events evs, ff, d⟩
  | expireRead {ff : Option ℕ} {d : Bool} {now : ℕ} {evs : List (PollEvent N)} :
      s.timers.hasTimers = true →
      WorkerStep ⟨.expireRead now evs, ff, d⟩ s ⟨.expireWrite now evs, ff, d⟩
  | expireWrite {ff : Option ℕ} {d : Bool} {now : ℕ} {evs : List (PollEvent N)}
      {m : TimerManager (Func κ N)} {gs : List (Func κ N)} :
      s.timers.getExpiredFuncs S.addr now = (m, gs) →
      WorkerStep ⟨.expireWrite now evs, ff, d⟩ { s with timers := m }
        ⟨if gs.isEmpty then .events evs else .expireSched gs evs, ff, d⟩
  | expireSched {ff : Option ℕ} {d : Bool} {gs : List (Func κ N)} {evs : List (PollEvent N)} :
      s.locked = false →
      WorkerStep ⟨.expireSched gs evs, ff, d⟩ (s.schedule (gs.map .func) (-1)) ⟨.events evs, ff, d⟩
  | eventsEnd {ff : Option ℕ} {d : Bool} : WorkerStep ⟨.events [], ff, d⟩ s ⟨.decIdle, ff, d⟩
  | eventsTickle {ff : Option ℕ} {d : Bool} {evs : List (PollEvent N)} :
      WorkerStep ⟨.events (.tickle :: evs), ff, d⟩ s ⟨.drain evs, ff, d⟩
  | eventsIo {ff : Option ℕ} {d : Bool} {fd : Fin N} {r : Report} {evs : List (PollEvent N)}
      {s' : Shared κ N} :
      s.event (.scheduleEvent fd r) = some s' →
      WorkerStep ⟨.events (.io fd r :: evs), ff, d⟩ s' ⟨.events evs, ff, d⟩
  | drainEnd {ff : Option ℕ} {d : Bool} {evs : List (PollEvent N)} :
      s.pipe = 0 → WorkerStep ⟨.drain evs, ff, d⟩ s ⟨.events evs, ff, d⟩
  | drain {ff : Option ℕ} {d : Bool} {evs : List (PollEvent N)} :
      WorkerStep ⟨.drain evs, ff, d⟩ { s with pipe := s.pipe - 256 } ⟨.drain evs, ff, d⟩

end Worker

section

variable {S : Setup κ n N} {i : Fin n} {s s' : Shared κ N} {w w' : Worker κ N} {ch : Choice N}

lemma selectStep_inv (hw : w.pc = .select) (h : selectStep S i s w = some (s', w')) :
    WorkerStep S i s w s' w' := by
  obtain ⟨pc, ff, d⟩ := w
  cases hw
  simp only [selectStep] at h
  split at h
  · cases h
  · rename_i hl
    split at h
    · cases h; exact .selectNothing ‹_› (by simpa using hl)
    · cases h; exact .selectSpins ‹_› (by simpa using hl)
    · rename_i hfails
      cases h
      obtain ⟨tk, hmem, hnot⟩ := S.selects.fails hfails
      exact .selectFails hmem hnot
    · rename_i htook
      cases h
      exact .selectTook htook (S.selects.took htook).2.1 (by simpa using hl)

lemma dispatchStep_inv {tk : Option (Job κ N)} (hw : w.pc = .dispatch tk)
    (h : dispatchStep s w tk = (s', w')) : WorkerStep S i s w s' w' := by
  obtain ⟨pc, ff, d⟩ := w
  cases hw
  unfold dispatchStep at h
  split at h
  · cases h; exact .dispatchNone
  · split at h <;> cases h
    · exact .dispatchDone ‹_›
    · exact .dispatchFiber (by simpa using ‹¬ _ = true›)
  · split at h
    · rename_i f hf
      cases h
      cases hf
      exact .dispatchReset
    · rename_i hf
      cases h
      cases hf
      exact .dispatchNew

lemma execStep_inv {b : Branch κ N} {f : ℕ} {c : Code κ N} (hw : w.pc = .exec b f c)
    (h : execStep S s w b f c ch = some (s', w')) : WorkerStep S i s w s' w' := by
  obtain ⟨pc, ff, d⟩ := w
  cases hw
  unfold execStep at h
  split at h
  · cases h; exact .yieldSwap
  · cases h; exact .finSwap
  · obtain ⟨⟨s₁, c₁⟩, hc, heq⟩ := Option.map_eq_some_iff.1 h
    cases heq
    exact .code (codeStep_inv hc)

lemma idleStep_inv (ch : Choice N) (h : idleStep S s w ch = some (s', w')) :
    WorkerStep S i s w s' w' := by
  obtain ⟨pc, ff, d⟩ := w
  unfold idleStep at h
  split at h
  case h_1 hw =>
      cases hw
      split at h
      · cases h
      · rename_i hl
        split at h <;> cases h
        · exact .stopTimers ‹_› (by simpa using hl)
        · exact .stopTest (by simpa using ‹¬ s.timers.hasTimers = true›) (by simpa using hl)
  case h_2 hw =>
      cases hw
      split at h <;> cases h
      · exact .stopActive ‹_›
      · exact .stopBusy (by simpa using ‹¬ s.inactive = true›)
  case h_3 hw =>
      cases hw
      split at h <;> cases h
      · exact .stopYes ‹_›
      · exact .stopNo ‹_›
  case h_4 hw => cases hw; cases h; exact .wait
  case h_5 t hw =>
      cases hw
      split at h
      · cases h; exact .eintr
      · split at h <;> cases h
        exact .poll ‹_›
      · cases h
  case h_6 evs hw => cases hw; cases h; exact .expireNow
  case h_7 now evs hw =>
      cases hw
      cases h
      by_cases ht : s.timers.hasTimers = true
      · rw [if_pos ht]
        exact .expireRead ht
      · rw [if_neg ht]
        exact .expireNone
  case h_8 now evs hw => cases hw; cases h; exact .expireWrite rfl
  case h_9 gs evs hw =>
      cases hw
      split at h <;> cases h
      exact .expireSched (by simpa using ‹¬ _ = true›)
  case h_10 hw => cases hw; cases h; exact .eventsEnd
  case h_11 evs hw => cases hw; cases h; exact .eventsTickle
  case h_12 fd r evs hw =>
      cases hw
      obtain ⟨s₁, hs₁, heq⟩ := Option.map_eq_some_iff.1 h
      cases heq
      exact .eventsIo hs₁
  case h_13 evs hw =>
      cases hw
      split at h <;> cases h
      · exact .drainEnd ‹_›
      · exact .drain
  case h_14 => cases h

/-- **Every step of a worker is one of `WorkerStep`.** -/
theorem workerStep_inv (h : workerStep S i s w ch = some (s', w')) : WorkerStep S i s w s' w' := by
  obtain ⟨pc, ff, d⟩ := w
  cases pc with
  | select => exact selectStep_inv rfl h
  | popped tk need =>
      cases h
      cases tk with
      | none => exact .poppedNone
      | some tk => exact .poppedSome
  | tickleRead tk =>
      cases h
      by_cases hi : s.idle = 0
      · rw [if_pos hi]
        exact .tickleSkip hi
      · rw [if_neg hi]
        exact .tickleRead hi
  | tickleWrite tk => cases h; exact .tickleWrite
  | dispatch tk => exact dispatchStep_inv rfl (Option.some.inj h)
  | call b f =>
      simp only [workerStep] at h
      split at h
      · cases h; exact .callFails ‹_›
      · rename_i hst
        cases h
        exact .call fun hr => hst (.inl hr)
  | swapIn b f => cases h; exact .swapIn
  | exec b f c => exact execStep_inv rfl h
  | back b f st => cases h; exact .back
  | check b f st =>
      simp only [workerStep] at h
      split at h
      · cases h; exact .checkReady ‹_›
      · split at h <;> cases h
        · exact .checkFiber ‹_›
        · exact .checkFunc ‹_›
  | requeue b f =>
      simp only [workerStep] at h
      split at h <;> cases h
      exact .requeue (by simpa using ‹¬ _ = true›)
  | checkDone f st =>
      cases h
      by_cases hd : (s.fibers f).state.isDone = true
      · rw [if_pos hd]
        exact .checkDone hd
      · rw [if_neg hd]
        exact .checkLeft (by simpa using hd)
  | retire f => cases h; exact .retire
  | idleTest =>
      cases h
      cases d with
      | false => exact .idleTest
      | true => exact .idleEnds
  | incIdle => cases h; exact .incIdle
  | decIdle => cases h; exact .decIdle
  | spin => cases h
  | exited => cases h
  | stopTest | stopActive | stopPending | wait | blocked | expireNow | expireRead | expireWrite
  | expireSched | events | drain => exact idleStep_inv ch h

end

/-! ### The end of a worker -/

/-- Whether a worker is in `shouldStop()` behind `hasTimers()`. -/
def Pc.asksStop : Pc κ N → Bool
  | .stopActive | .stopPending => true
  | _ => false

section Ends

variable {S : Setup κ n N} {i : Fin n} {s s' : Shared κ N} {w w' : Worker κ N}

/-- A worker that has ended takes no step, and one that ends had decided to. -/
lemma WorkerStep.ends (h : WorkerStep S i s w s' w') :
    w.exited = false ∧ (w'.exited = true → w'.idleDone = true) := by
  cases h with
  | idleEnds => exact ⟨rfl, fun _ => rfl⟩
  | @poppedNone ff d need | @poppedSome ff d need => cases need <;> exact ⟨rfl, fun he => by cases he⟩
  | @expireWrite ff d now evs m gs => cases gs <;> exact ⟨rfl, fun he => by cases he⟩
  | _ => exact ⟨rfl, fun he => by cases he⟩

end Ends

/-! ### The machine -/

/-- A step of the machine. -/
inductive SysStep (S : Setup κ n N) (x : Sys κ n N) : Act κ n N → Sys κ n N → Prop
  | worker {i : Fin n} {ch : Choice N} {s' : Shared κ N} {w' : Worker κ N} :
      WorkerStep S i x.shared (x.workers i) s' w' → SysStep S x (.worker i ch) (x.put i s' w')
  | schedule {gs : List κ} {thr : ℤ} :
      x.shared.locked = false →
      SysStep S x (.schedule gs thr)
        { x with shared := x.shared.schedule (gs.map fun g => .func (.user g)) thr }
  | spawn {g : κ} {thr : ℤ} :
      x.shared.locked = false → SysStep S x (.spawn g thr) { x with shared := x.shared.spawn g thr }
  | addTimer {ms : ℕ} {g : κ} {recurring : Bool} :
      SysStep S x (.addTimer ms g recurring)
        { x with ext := .timerAdd ms (u64 (x.shared.clock + ms)) g recurring :: x.ext }
  | timerAdd {k period deadline t : ℕ} {g : κ} {recurring changed : Bool}
      {m : TimerManager (Func κ N)} :
      x.ext[k]? = some (.timerAdd period deadline g recurring) →
      x.shared.timers.addTimer S.addr
        { period := period, next := deadline, func := .user g, recurring := recurring } =
          (m, t, changed) →
      SysStep S x (.external k)
        { x with shared := { x.shared with timers := m }
                 ext := if changed then .tickleRead :: x.ext.eraseIdx k else x.ext.eraseIdx k }
  | tickleRead {k : ℕ} :
      x.ext[k]? = some .tickleRead →
      SysStep S x (.external k)
        { x with ext := if x.shared.idle = 0 then x.ext.eraseIdx k
                        else .tickleWrite :: x.ext.eraseIdx k }
  | tickleWrite {k : ℕ} :
      x.ext[k]? = some .tickleWrite →
      SysStep S x (.external k)
        { x with shared := { x.shared with pipe := x.shared.pipe + 1 }, ext := x.ext.eraseIdx k }
  | stop :
      x.ctl = .running →
      SysStep S x .stop
        { x with shared := { x.shared with autoStop := true, stopping := true }, ctl := .tickling n }
  | stopTickle {c : Control} :
      (x.ctl = .tickling 0 ∧ c = .joining ∨
        ∃ k, x.ctl = .tickling (k + 1) ∧ c = if x.shared.idle = 0 then .tickling k else .writing k) →
      SysStep S x .stopTickle { x with ctl := c }
  | stopWrite {k : ℕ} :
      x.ctl = .writing k →
      SysStep S x .stopTickle
        { x with shared := { x.shared with pipe := x.shared.pipe + 1 }, ctl := .tickling k }
  | join :
      x.ctl = .joining → (∀ i, (x.workers i).exited = true) →
      SysStep S x .join
        { x with shared := { x.shared with autoStop := false, stopping := false }, ctl := .stopped }
  | clock {t : ℕ} : SysStep S x (.clock t) { x with shared := { x.shared with clock := t } }

/-- **Every step of the machine is one of `SysStep`**, and none follows a failed assertion. -/
theorem step_inv {S : Setup κ n N} {x x' : Sys κ n N} {a : Act κ n N} (h : x.step S a = some x') :
    x.shared.crashed = none ∧ SysStep S x a x' := by
  unfold Sys.step at h
  split at h
  · cases h
  · rename_i hc
    refine ⟨by simpa using hc, ?_⟩
    cases a with
    | worker i ch =>
        obtain ⟨⟨s', w'⟩, hw, rfl⟩ := Option.map_eq_some_iff.1 h
        exact .worker (workerStep_inv hw)
    | schedule gs thr =>
        dsimp only at h
        split at h <;> cases h
        exact .schedule (by simpa using ‹¬ _ = true›)
    | spawn g thr =>
        dsimp only at h
        split at h <;> cases h
        exact .spawn (by simpa using ‹¬ _ = true›)
    | addTimer ms g recurring => cases h; exact .addTimer
    | external k =>
        obtain ⟨e, he, rfl⟩ := Option.map_eq_some_iff.1 h
        cases e with
        | timerAdd period deadline g recurring => exact .timerAdd he rfl
        | tickleRead => exact .tickleRead he
        | tickleWrite => exact .tickleWrite he
    | stop =>
        dsimp only at h
        split at h <;> cases h
        rename_i hb
        simp only [Bool.or_eq_true, bne_iff_ne, not_or, Decidable.not_not] at hb
        exact .stop hb.2
    | stopTickle =>
        dsimp only at h
        split at h <;> cases h
        · exact .stopTickle (.inl ⟨‹_›, rfl⟩)
        · exact .stopTickle (.inr ⟨_, ‹_›, rfl⟩)
        · exact .stopWrite ‹_›
    | join =>
        dsimp only at h
        split at h <;> cases h
        rename_i hb
        exact .join hb.1 hb.2.1
    | clock t => cases h; exact .clock

end Eva01.Runtime
