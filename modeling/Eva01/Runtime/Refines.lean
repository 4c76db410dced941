import Eva01.Runtime.Board
import Eva01.Runtime.Ownership

/-!
The machine moves on its board (`board_moves`): where wake-ups meet fibers that no worker has, each
of its steps is a move of its board. `reach_board` turns an invariant of boards into one of the
machine.

Two conditions of a move are not seen on the board, and come from the states of the fibers
(`Marked`): a fiber that is woken has been suspended, since a ready one is in the task list or with
a worker, and a fiber that is retired has ended its function.
-/

namespace Eva01.Runtime

open Eva01.IOManager (Event Events Report Assertion Fds Target sizeInc sizeDec)
open Eva01.Scheduler (Selected Selects)
open Eva01.Lib.Runs

variable {κ : Type*} {n N : ℕ}

/-! ### The board of a machine -/

def Pc.stage : Pc κ N → Stage κ N
  | .popped (some tk) _ | .tickleRead (some tk) | .tickleWrite (some tk) | .dispatch (some tk) =>
      .hand tk.work
  | .call _ f | .swapIn _ f => .loaded f
  | .exec _ f _ => .running f
  | .back _ f _ | .check _ f _ | .requeue _ f | .checkDone f _ | .retire f => .left f
  | _ => .idle

def Shared.ledger (s : Shared κ N) : Ledger κ N where
  tasks := s.tasks
  ticket f := (s.fibers f).ticket
  seg f := (s.fibers f).seg
  nextTicket := s.nextTicket
  pins := s.pins
  trace := s.trace
  finished := s.finished
  suspended := s.suspended

def Sys.board (x : Sys κ n N) : Board κ n N :=
  { x.shared.ledger with stage := fun i => (x.workers i).pc.stage }

section Board

variable {S : Setup κ n N} {x : Sys κ n N} {i : Fin n} {s s' : Shared κ N} {w w' : Worker κ N} {F : ℕ}

lemma Sys.board_put : (x.put i s w).board = x.board.put s.ledger i w.pc.stage := by
  have hstage : (fun j => ((x.put i s w).workers j).pc.stage) =
      Function.update x.board.stage i w.pc.stage := by
    funext j
    by_cases hj : j = i
    · subst hj
      rw [Sys.put_workers_self, Function.update_self]
    · rw [Sys.put_workers_of_ne hj, Function.update_of_ne hj]
      rfl
  unfold Sys.board Board.put
  rw [hstage]
  rfl

lemma Board.put_self (b : Board κ n N) {st : Stage κ N} (h : b.stage i = st) (l : Ledger κ N) :
    b.put l i st = { b with toLedger := l } := by
  subst h
  simp [Board.put]

lemma Shared.ledger_setFiber (f : ℕ) (fb : Fiber κ N) :
    (s.setFiber f fb).ledger = { s.ledger with
      ticket := Function.update s.ledger.ticket f fb.ticket
      seg := Function.update s.ledger.seg f fb.seg } := by
  have hcomp : ∀ {α : Type} (g : Fiber κ N → α),
      (fun F => g (Function.update s.fibers f fb F)) =
        Function.update (fun F => g (s.fibers F)) f (g fb) := by
    intro α g
    funext F
    by_cases hF : F = f
    · subst hF
      rw [Function.update_self, Function.update_self]
    · rw [Function.update_of_ne hF, Function.update_of_ne hF]
  have ht := hcomp Fiber.ticket
  have hs := hcomp Fiber.seg
  simp only [Shared.ledger, Shared.setFiber, ht, hs]

lemma Shared.ledger_setState (f : ℕ) (st : State) :
    (s.setFiber f { s.fibers f with state := st }).ledger = s.ledger := by
  rw [Shared.ledger_setFiber]
  have ht : Function.update s.ledger.ticket f (s.fibers f).ticket = s.ledger.ticket :=
    Function.update_eq_self _ _
  have hs : Function.update s.ledger.seg f (s.fibers f).seg = s.ledger.seg :=
    Function.update_eq_self _ _
  simp only [ht, hs]

lemma Shared.ledger_leave (f : ℕ) (st : State) :
    (s.leave f st).ledger = if st = .suspend then s.ledger.suspend f else s.ledger := by
  have h := s.ledger_setState f st
  have ht := congrArg Ledger.ticket h
  have hs := congrArg Ledger.seg h
  split
  · exact Ledger.ext rfl ht hs rfl rfl rfl rfl (if_pos ‹_›)
  · exact Ledger.ext rfl ht hs rfl rfl rfl rfl (if_neg ‹_›)

lemma Shared.ledger_finish (f : ℕ) (st : State) : (s.finish f st).ledger = s.ledger.finish f := by
  have h := s.ledger_setState f st
  have ht := congrArg Ledger.ticket h
  have hs := congrArg Ledger.seg h
  exact Ledger.ext rfl ht hs rfl rfl rfl rfl rfl

lemma Shared.ledger_save (f : ℕ) (c : Ctx κ N) :
    (s.setFiber f { s.fibers f with ctx := c, seg := (s.fibers f).seg + 1 }).ledger =
      s.ledger.leave f := by
  rw [Shared.ledger_setFiber]
  have ht : Function.update s.ledger.ticket f (s.fibers f).ticket = s.ledger.ticket :=
    Function.update_eq_self _ _
  exact Ledger.ext rfl ht rfl rfl rfl rfl rfl rfl

lemma Shared.ledger_spawn (g : κ) (thr : ℤ) :
    (s.spawn g thr).ledger = s.ledger.spawn s.nextFiber thr := by
  have h := s.ledger_setFiber s.nextFiber
    ({ ctx := .entry (some (.user g)), ticket := some s.nextTicket } : Fiber κ N)
  have ht := congrArg Ledger.ticket h
  have hs := congrArg Ledger.seg h
  exact Ledger.ext rfl ht hs rfl rfl rfl rfl rfl

lemma Shared.ledger_newFiber (g : Func κ N) (T : ℕ) :
    (s.newFiber g T).ledger = s.ledger.load s.nextFiber (some T) :=
  s.ledger_setFiber s.nextFiber ({ ctx := .entry (some g), ticket := some T } : Fiber κ N)

/-! ### Who has a fiber -/

lemma Pc.fiber_stage (pc : Pc κ N) (h : pc.stage.fiber = some F) : 0 < pc.hand F + pc.runs F := by
  cases pc with
  | popped tk | tickleRead tk | tickleWrite tk | dispatch tk =>
      cases tk with
      | none => cases h
      | some tk =>
          obtain ⟨work, thr⟩ := tk
          cases work with
          | fiber f =>
              cases h
              simp [Pc.hand, jobHolds, Work.holds]
          | func g T => cases h
  | call b f | swapIn b f | exec b f c | back b f st | check b f st | requeue b f | checkDone f st
  | retire f =>
      cases h
      simp [Pc.runs]
  | _ => cases h

lemma ne_fiber_of_queued (h : s.queued F = 0) {tk : Job κ N} (htk : tk ∈ s.tasks) :
    tk.work ≠ .fiber F := by
  intro hwork
  have := Shared.queued_pos htk hwork
  omega

lemma Owned.alone (hx : Owned x) (hF : 0 < (x.workers i).holds F) : x.board.Alone i F := by
  have hq : x.shared.queued F = 0 := by
    have := x.worker_holds_le F i
    have := hx.holds F
    omega
  refine ⟨fun tk htk => ne_fiber_of_queued hq htk, fun j hj hfib => ?_⟩
  have hzero := (hx.other (i := j) (Ne.symm hj) hF).1
  have := (x.workers j).pc.fiber_stage hfib
  simp only [Worker.holds] at hzero
  omega

/-- A fiber that is kept or not made yet is on no board. -/
lemma Owned.absent (hx : Owned x) (hF : x.holds F = 0 ∨ (x.workers i).own F = 1) :
    x.board.Absent F := by
  have hle := hx.holds F
  have hself := x.worker_holds_le F i
  have hi : (x.workers i).holds F =
      (x.workers i).pc.hand F + (x.workers i).pc.runs F + (x.workers i).own F := rfl
  refine ⟨fun tk htk => ne_fiber_of_queued (F := F) (by omega) htk, fun j hfib => ?_⟩
  have hpos := (x.workers j).pc.fiber_stage hfib
  have hj : (x.workers j).holds F =
      (x.workers j).pc.hand F + (x.workers j).pc.runs F + (x.workers j).own F := rfl
  rcases hF with hF | hF
  · have := x.worker_holds_le F j
    omega
  · by_cases hji : j = i
    · subst hji
      omega
    · have := (hx.other (F := F) (i := j) (j := i) (Ne.symm hji) (by omega)).1
      omega

/-! ### What the states of the fibers say about the record -/

lemma Shared.tasks_schedule (ws : List (Target ℕ (Func κ N))) (thr : ℤ) :
    (s.schedule ws thr).tasks = s.tasks ++ (issue s.nextTicket ws).map fun w => ⟨w, thr⟩ := rfl

lemma event_tasks {o : IOManager.Op N ℕ κ} (h : s.event o = some s') :
    ∃ l, s'.tasks = s.tasks ++ l := by
  rcases s.event_cases h with ⟨a, -, rfl⟩ | ⟨out, -, -, rfl⟩
  · exact ⟨[], (List.append_nil _).symm⟩
  · unfold Shared.deliver
    split
    · exact ⟨[], (List.append_nil _).symm⟩
    · exact ⟨_, rfl⟩

lemma CodeStep.tasks {f : ℕ} {c c' : Code κ N} (h : CodeStep S s f c s' c') :
    ∃ l, s'.tasks = s.tasks ++ l := by
  cases h with
  | schedule | spawn | wake => exact ⟨_, rfl⟩
  | event _ he => exact event_tasks he
  | timerAdd ht =>
      have hsame := congrArg (fun r => r.1.tasks) ht
      exact ⟨[], hsame.symm.trans (List.append_nil _).symm⟩
  | evAdd =>
      unfold Shared.addEvent
      split <;> exact ⟨[], (List.append_nil _).symm⟩
  | _ => exact ⟨[], (List.append_nil _).symm⟩

lemma Shared.queued_mono {l : List (Job κ N)} (h : s'.tasks = s.tasks ++ l) :
    s.queued F ≤ s'.queued F := by
  unfold Shared.queued
  rw [h, List.map_append, List.sum_append]
  exact Nat.le_add_right _ _

/-- The fiber of a task is not the one kept for the next function. -/
lemma own_eq_zero {ff : Option ℕ} (hk : ∀ f, ff = some f → (s.fibers f).ticket = none)
    (ht : (s.fibers F).ticket ≠ none) : (ff.map (one F)).getD 0 = 0 := by
  cases ff with
  | none => rfl
  | some f =>
      refine one_of_ne ?_
      rintro rfl
      exact ht (hk f rfl)

/-- **A fiber that is ready, and not kept, stays in someone's hands.** -/
lemma WorkerStep.held (h : WorkerStep S i s w s' w') (hl : Linked s.fibers w.pc)
    (hk : ∀ f, w.funcFiber = some f → (s.fibers f).ticket = none)
    (hst : (s'.fibers F).state = .ready) (ht : (s'.fibers F).ticket ≠ none) :
    s.queued F + w.holds F ≤ s'.queued F + w'.holds F ∨ 0 < w'.holds F := by
  cases h with
  | selectNothing | selectSpins | selectFails | tickleSkip | tickleRead | tickleWrite
  | dispatchNone | callFails | call | swapIn | yieldSwap | finSwap | back | checkReady
  | checkFunc | checkDone | idleEnds | idleTest | incIdle | decIdle | stopTimers | stopTest | stopActive
  | stopBusy | stopYes | stopNo | wait | eintr
  | poll | expireNow | expireNone | expireRead | eventsEnd | eventsTickle | drainEnd =>
      exact .inl le_rfl
  | drain =>
      rw [Shared.queued_pipe s (s.pipe - 256)]
      exact .inl le_rfl
  | @poppedNone ff d need => cases need <;> exact .inl le_rfl
  | @poppedSome ff d need tk => cases need <;> exact .inl le_rfl
  | @selectTook ff d tk rest hsel hok hlock =>
      have hs := Shared.queued_took (F := F) hsel
      simp only [Worker.holds_mk, Pc.hand, Pc.runs, jobHolds]
      omega
  | @dispatchDone ff d f thr hdone =>
      have hF : f ≠ F := by
        rintro rfl
        rw [hst] at hdone
        cases hdone
      left
      simp only [Worker.holds_mk, Pc.hand, Pc.runs, jobHolds, Work.holds, one_of_ne hF]
      omega
  | @checkFiber ff d f st hne =>
      have hF : f ≠ F := fun hF => hne (hF ▸ hst)
      left
      simp only [Worker.holds_mk, Pc.hand, Pc.runs, one_of_ne hF]
      omega
  | @checkLeft ff d f st hne =>
      have hF : f ≠ F := by
        rintro rfl
        exact hl.2.1 (hl.1 ▸ hst)
      left
      simp only [Worker.holds_mk, Pc.hand, Pc.runs, one_of_ne hF]
      omega
  | dispatchFiber =>
      simp only [Worker.holds_mk, Pc.hand, Pc.runs, jobHolds, Work.holds]
      omega
  | @dispatchReset d f T g thr =>
      simp only [Shared.queued_setFiber, Worker.holds_mk, Pc.hand, Pc.runs, jobHolds, Work.holds,
        Option.map_some, Option.map_none, Option.getD_some, Option.getD_none]
      omega
  | @dispatchNew d T g thr =>
      have hs : (s.newFiber g T).queued F = s.queued F := rfl
      simp only [Worker.holds_mk, Pc.hand, Pc.runs, jobHolds, Work.holds]
      omega
  | @code ff d b f c c' s' hc =>
      obtain ⟨l, hl⟩ := hc.tasks
      have := Shared.queued_mono (F := F) hl
      simp only [Worker.holds_mk, Pc.hand, Pc.runs]
      omega
  | @requeue ff d b f hlock =>
      rw [Shared.queued_schedule_fiber]
      simp only [Worker.holds_mk, Pc.hand, Pc.runs]
      omega
  | @retire ff d f =>
      have hF : f ≠ F := by
        rintro rfl
        simp [Shared.setFiber] at ht
      have hsame : (s.setFiber f {}).fibers F = s.fibers F := Function.update_of_ne hF.symm _ _
      have hff := own_eq_zero hk (hsame ▸ ht)
      simp only [Shared.queued_setFiber, Worker.holds_mk, Pc.hand, Pc.runs, one_of_ne hF, hff]
      omega
  | @expireWrite ff d now evs m gs hexp =>
      have hs : Shared.queued F { s with timers := m } = s.queued F := rfl
      simp only [Worker.holds_mk]
      cases gs <;> simp [Pc.hand, Pc.runs, hs]
  | @expireSched ff d gs evs hlock =>
      rw [Shared.queued_schedule, Shared.sum_holds_func]
      exact .inl le_rfl
  | @eventsIo ff d fd r evs s' hs =>
      obtain ⟨l, hl⟩ := event_tasks hs
      have := Shared.queued_mono (F := F) hl
      simp only [Worker.holds_mk, Pc.hand, Pc.runs]
      omega

/-- How the state and the ticket of the fiber `F` are found after a step of a worker. -/
inductive Written (s s' : Shared κ N) (w' : Worker κ N) (F : ℕ) : Prop
  | same : (s'.fibers F).state = (s.fibers F).state → (s'.fibers F).ticket = (s.fibers F).ticket →
      Written s s' w' F
  | running : (s'.fibers F).state = .running → Written s s' w' F
  | reset : (s'.fibers F).ticket = none → Written s s' w' F
  | ready : (s'.fibers F).state = .ready → 0 < s'.queued F + w'.holds F → Written s s' w' F
  | suspended : (s'.fibers F).state = .suspend →
      (∀ T, (s'.fibers F).ticket = some T → T ∈ s'.suspended) → Written s s' w' F
  | finished : (s'.fibers F).state.isDone = true →
      (∀ T, (s'.fibers F).ticket = some T → T ∈ s'.finished) → Written s s' w' F

lemma Written.of_eq (h : s'.fibers = s.fibers) : Written s s' w' F :=
  .same (by rw [h]) (by rw [h])

lemma Written.of_ne {f : ℕ} {fb : Fiber κ N} (hs : s'.fibers = Function.update s.fibers f fb)
    (hF : F ≠ f) : Written s s' w' F := by
  have hsame : s'.fibers F = s.fibers F := by rw [hs, Function.update_of_ne hF]
  exact .same (by rw [hsame]) (by rw [hsame])

lemma Shared.queued_spawn_self (g : κ) (thr : ℤ) : 0 < (s.spawn g thr).queued s.nextFiber := by
  rw [Shared.queued_spawn, one_self]
  omega

lemma CodeStep.written {f : ℕ} {c c' : Code κ N} (h : CodeStep S s f c s' c') (hp : c.Proper)
    (hF : F = f → 0 < w'.holds F) : Written s s' w' F := by
  cases h with
  | @spawn k g thr next =>
      by_cases hnew : F = s.nextFiber
      · subst hnew
        have hself := s.queued_spawn_self g thr
        exact .ready (by rw [Shared.fibers_spawn]) (by omega)
      · exact .of_ne rfl hnew
  | @yieldState st r =>
      by_cases hf : F = f
      · subst hf
        have hst : ((s.leave F st).fibers F).state = st := by simp [Shared.leave, Shared.setFiber]
        rcases hp with rfl | rfl
        · exact .ready hst (Nat.lt_of_lt_of_le (hF rfl) (Nat.le_add_left _ _))
        · refine .suspended hst fun T hT => ?_
          simp only [Shared.leave, Shared.setFiber, Function.update_self] at hT ⊢
          simp [hT]
      · exact .of_ne rfl hf
  | @finState st =>
      by_cases hf : F = f
      · subst hf
        have hst : ((s.finish F st).fibers F).state = st := by simp [Shared.finish, Shared.setFiber]
        refine .finished (by rw [hst]; exact hp) fun T hT => ?_
        simp only [Shared.finish, Shared.setFiber, Function.update_self] at hT ⊢
        simp [hT]
      · exact .of_ne rfl hf
  | event _ hs => exact .of_eq (event_frame hs).fibers
  | evAdd => exact .of_eq addEvent_frame.fibers
  | timerAdd hs => exact .of_eq (congrArg (fun r => r.1.fibers) hs).symm
  | _ => exact .of_eq rfl

theorem WorkerStep.written (h : WorkerStep S i s w s' w') (hl : Linked s.fibers w.pc) :
    Written s s' w' F := by
  cases h with
  | @dispatchReset d f T g thr =>
      by_cases hF : F = f
      · subst hF
        exact .ready (by simp [Shared.setFiber]) (by simp [Worker.holds_mk, Pc.runs])
      · exact .of_ne rfl hF
  | @dispatchNew d T g thr =>
      by_cases hF : F = s.nextFiber
      · subst hF
        exact .ready (by simp [Shared.newFiber, Shared.setFiber]) (by simp [Worker.holds_mk, Pc.runs])
      · exact .of_ne rfl hF
  | @call ff d b f =>
      by_cases hF : F = f
      · subst hF
        exact .running (by simp [Shared.setFiber])
      · exact .of_ne rfl hF
  | code hc =>
      refine hc.written hl.2 fun hF => ?_
      subst hF
      simp [Worker.holds_mk, Pc.runs]
  | @yieldSwap ff d b f st r =>
      by_cases hF : F = f
      · subst hF
        exact .same (by simp [Shared.setFiber]) (by simp [Shared.setFiber])
      · exact .of_ne rfl hF
  | @finSwap ff d b f st =>
      by_cases hF : F = f
      · subst hF
        exact .same (by simp [Shared.setFiber]) (by simp [Shared.setFiber])
      · exact .of_ne rfl hF
  | @retire ff d f =>
      by_cases hF : F = f
      · subst hF
        exact .reset (by simp [Shared.setFiber])
      · exact .of_ne rfl hF
  | eventsIo hs => exact .of_eq (event_frame hs).fibers
  | _ => exact .of_eq rfl

theorem WorkerStep.record (h : WorkerStep S i s w s' w') :
    s.suspended ⊆ s'.suspended ∧ s.finished ⊆ s'.finished := by
  cases h with
  | code hc =>
      cases hc with
      | @yieldState st r =>
          refine ⟨fun T hT => ?_, fun T hT => hT⟩
          simp only [Shared.leave]
          split
          · exact List.mem_append_left _ hT
          · exact hT
      | finState => exact ⟨fun T hT => hT, fun T hT => List.mem_append_left _ hT⟩
      | event _ hs => rw [(event_frame hs).suspended, (event_frame hs).finished]; simp
      | evAdd => rw [addEvent_frame.suspended, addEvent_frame.finished]; simp
      | timerAdd hs =>
          have hsus := congrArg (fun r => r.1.suspended) hs
          have hfin := congrArg (fun r => r.1.finished) hs
          dsimp only [Shared.addTimer] at hsus hfin
          rw [← hsus, ← hfin]
          simp
      | _ => exact ⟨fun T hT => hT, fun T hT => hT⟩
  | eventsIo hs => rw [(event_frame hs).suspended, (event_frame hs).finished]; simp
  | _ => exact ⟨fun T hT => hT, fun T hT => hT⟩

end Board

/-- What the state of a fiber that has a ticket says. -/
structure Marked (x : Sys κ n N) : Prop where
  suspended : ∀ F T, (x.shared.fibers F).state = .suspend → (x.shared.fibers F).ticket = some T →
    T ∈ x.shared.suspended
  finished : ∀ F T, (x.shared.fibers F).state.isDone = true →
    (x.shared.fibers F).ticket = some T → T ∈ x.shared.finished
  /-- a ready fiber is in the task list or with a worker -/
  ready : ∀ F, (x.shared.fibers F).state = .ready → (x.shared.fibers F).ticket ≠ none →
    0 < x.holds F
  fresh : ∀ F, x.shared.nextFiber ≤ F → (x.shared.fibers F).ticket = none

section Marked

variable {S : Setup κ n N} {x x' : Sys κ n N} {F : ℕ}

lemma Marked.init : Marked ({} : Sys κ n N) where
  suspended F T h := by cases h
  finished F T h := by cases h
  ready F _ h := absurd rfl h
  fresh F _ := rfl

lemma Marked.worker {i : Fin n} {s' : Shared κ N} {w' : Worker κ N} (hm : Marked x) (hx : Owned x)
    (hx' : Owned (x.put i s' w')) (h : WorkerStep S i x.shared (x.workers i) s' w') :
    Marked (x.put i s' w') := by
  obtain ⟨hsus, hfin⟩ := h.record
  have hs : (x.put i s' w').shared = s' := rfl
  refine ⟨fun F T hst hT => ?_, fun F T hst hT => ?_, fun F hst hT => ?_, fun F hF => ?_⟩
  · rw [hs] at hst hT
    rcases h.written (F := F) (hx.linked i) with ⟨hs, ht⟩ | hr | hr | ⟨hr, -⟩ | ⟨-, ht⟩ | ⟨hr, -⟩
    · exact hsus (hm.suspended F T (hs ▸ hst) (ht ▸ hT))
    · rw [hr] at hst; cases hst
    · rw [hr] at hT; cases hT
    · rw [hr] at hst; cases hst
    · exact ht T hT
    · rw [hst] at hr; cases hr
  · rw [hs] at hst hT
    rcases h.written (F := F) (hx.linked i) with ⟨hs, ht⟩ | hr | hr | ⟨hr, -⟩ | ⟨hr, -⟩ | ⟨-, ht⟩
    · exact hfin (hm.finished F T (hs ▸ hst) (ht ▸ hT))
    · rw [hr] at hst; cases hst
    · rw [hr] at hT; cases hT
    · rw [hr] at hst; cases hst
    · rw [hr] at hst; cases hst
    · exact ht T hT
  · have hle := (x.put i s' w').worker_holds_le F i
    rw [hs] at hst hT
    rw [hs, Sys.put_workers_self] at hle
    rcases h.written (F := F) (hx.linked i) with ⟨hs, ht⟩ | hr | hr | ⟨-, hr⟩ | ⟨hr, -⟩ | ⟨hr, -⟩
    · have hpos := hm.ready F (hs ▸ hst) (ht ▸ hT)
      have hput := x.holds_put (F := F) i s' w'
      have hkept : ∀ f, (x.workers i).funcFiber = some f → (x.shared.fibers f).ticket = none :=
        fun f hf => by rw [hx.kept i f hf]
      rcases h.held (hx.linked i) hkept hst hT with hge | hge <;> omega
    · rw [hr] at hst; cases hst
    · exact absurd hr hT
    · omega
    · rw [hr] at hst; cases hst
    · rw [hst] at hr; cases hr
  · obtain ⟨hnext, -, hsame⟩ := h.fibers F
    have hzero := (hx.fresh F (hnext.trans hF)).2
    have hzero' := (hx'.fresh F hF).2
    rw [hs] at hF ⊢
    have hw := x.worker_holds_le F i
    have hw' := (x.put i s' w').worker_holds_le F i
    rw [Sys.put_workers_self] at hw'
    have hr := (x.workers i).runs_le (F := F)
    have hr' := w'.runs_le (F := F)
    have hb : born x.shared s' F = 0 := by
      by_contra hb
      have := lt_nextFiber_of_born hb
      omega
    rcases hsame hb (by omega) with hF' | hpos
    · rw [hF']
      exact hm.fresh F (hnext.trans hF)
    · omega

/-- Another thread makes ready fibers only, and schedules them. -/
lemma Marked.shared (hm : Marked x) (hw : x'.workers = x.workers)
    (hn : x.shared.nextFiber ≤ x'.shared.nextFiber)
    (hf : ∀ F, x'.shared.fibers F = x.shared.fibers F ∨
      (x'.shared.fibers F).state = .ready ∧ 0 < x'.shared.queued F ∧ F < x'.shared.nextFiber)
    (hq : ∀ F, x.shared.queued F ≤ x'.shared.queued F)
    (hsus : x'.shared.suspended = x.shared.suspended)
    (hfin : x'.shared.finished = x.shared.finished) : Marked x' := by
  refine ⟨fun F T hst hT => ?_, fun F T hst hT => ?_, fun F hst hT => ?_, fun F hF => ?_⟩
  · rcases hf F with hF | ⟨hr, -⟩
    · rw [hF] at hst hT
      exact hsus ▸ hm.suspended F T hst hT
    · rw [hr] at hst; cases hst
  · rcases hf F with hF | ⟨hr, -⟩
    · rw [hF] at hst hT
      exact hfin ▸ hm.finished F T hst hT
    · rw [hr] at hst; cases hst
  · rcases hf F with hF | ⟨-, hpos, -⟩
    · rw [hF] at hst hT
      have := hm.ready F hst hT
      have := hq F
      simp only [Sys.holds, hw] at *
      omega
    · simp only [Sys.holds]
      omega
  · rcases hf F with hF' | ⟨-, -, hlt⟩
    · rw [hF']
      exact hm.fresh F (hn.trans hF)
    · omega

theorem Marked.step (hm : Marked x) (hx : Owned x) (hx' : Owned x') {a : Act κ n N}
    (h : SysStep S x a x') : Marked x' := by
  cases h with
  | worker hw => exact hm.worker hx hx' hw
  | schedule =>
      exact hm.shared rfl le_rfl (fun _ => .inl rfl) (fun _ => Shared.queued_mono rfl) rfl rfl
  | @spawn g thr =>
      refine hm.shared rfl (Nat.le_succ _) (fun F => ?_) (fun _ => Shared.queued_mono rfl) rfl rfl
      by_cases hF : F = x.shared.nextFiber
      · subst hF
        refine .inr ⟨?_, x.shared.queued_spawn_self g thr, Nat.lt_succ_self _⟩
        dsimp only
        rw [Shared.fibers_spawn]
      · exact .inl (Shared.fibers_spawn_of_ne hF g thr)
  | addTimer | timerAdd | tickleRead | tickleWrite | stop | stopTickle | stopWrite | join | clock =>
      exact hm.shared rfl le_rfl (fun _ => .inl rfl) (fun _ => le_rfl) rfl rfl

end Marked

/-! ### The machine moves on its board -/

section Refines

variable {S : Setup κ n N} {x x' : Sys κ n N} {q : ℕ → Prop} {i : Fin n} {s' : Shared κ N}
  {w' : Worker κ N} {F : ℕ}

/-- A fiber that is woken has been suspended: a ready one would be with somebody. -/
lemma Marked.suspended_woken (hm : Marked x) (hx : Owned x) (hun : Unheld x F)
    (hF : F ∈ (x.workers i).pc.woken S x.shared) {T : ℕ} (hT : x.board.ticket F = some T) :
    T ∈ x.board.suspended := by
  rcases (hx.resumable_woken hun hF).state with hst | hst
  · have hpos := hm.ready F hst (by rw [show (x.shared.fibers F).ticket = some T from hT]; simp)
    have := (hx.holds_woken hun hF).1
    omega
  · exact hm.suspended F T hst hT

lemma mem_asWork {ts : List (Target ℕ κ)} {f : ℕ}
    (h : (.fiber f : Target ℕ (Func κ N)) ∈ ts.map asWork) : .fiber f ∈ ts := by
  obtain ⟨t, ht, htf⟩ := List.mem_map.1 h
  cases t with
  | fiber f' =>
      cases htf
      exact ht
  | func g => cases htf

lemma Move.event {o : IOManager.Op N ℕ κ} (he : x.shared.event o = some s')
    (hf : ∀ f ∈ x.shared.fired o, ∀ T, x.board.ticket f = some T → T ∈ x.board.suspended) :
    Move q x.board { x.board with toLedger := s'.ledger } := by
  rcases x.shared.event_cases he with ⟨a, -, rfl⟩ | ⟨out, hout, -, rfl⟩
  · exact .still
  · unfold Shared.deliver
    split
    · exact .still
    · exact .schedule fun f hmem => hf f (mem_fired hout (mem_asWork hmem))

lemma Move.still_put {b : Board κ n N} {st : Stage κ N} (h : b.stage i = st) {l : Ledger κ N}
    (hl : l = b.toLedger) : Move q b (b.put l i st) := by
  rw [Board.put_self b h, hl]
  exact .still

lemma Move.of_put {b : Board κ n N} {st : Stage κ N} (h : b.stage i = st) {l : Ledger κ N}
    (hm : Move q b { b with toLedger := l }) : Move q b (b.put l i st) := by
  rwa [Board.put_self b h]

lemma CodeStep.moves {f : ℕ} {c c' : Code κ N} (h : CodeStep S x.shared f c s' c') (hx : Owned x)
    (hm : Marked x) (hstage : x.board.stage i = .running f)
    (hwake : ∀ f', c = .wake f' → ∀ T, x.board.ticket f' = some T → T ∈ x.board.suspended)
    (hfired : ∀ o c', c.eventOp S = some (o, c') →
      ∀ f ∈ x.shared.fired o, ∀ T, x.board.ticket f = some T → T ∈ x.board.suspended) :
    Move q x.board { x.board with toLedger := s'.ledger } := by
  cases h with
  | schedule =>
      refine .schedule fun f hf => ?_
      obtain ⟨g, -, hg⟩ := List.mem_map.1 hf
      cases hg
  | spawn =>
      rw [Shared.ledger_spawn]
      exact .spawn (hx.absent (i := i) (.inl (hx.fresh _ le_rfl).2)) (hm.fresh _ le_rfl)
  | event hop he => exact Move.event he (hfired _ _ hop)
  | timerAdd ht =>
      have hl := congrArg (fun r => r.1.ledger) ht
      dsimp only at hl
      rw [← hl]
      exact .still
  | @evAdd a =>
      have hl : (x.shared.addEvent f a).ledger = x.shared.ledger := by
        unfold Shared.addEvent
        split <;> rfl
      rw [hl]
      exact .still
  | @yieldState st r =>
      rw [Shared.ledger_leave]
      split
      · exact .suspend hstage
      · exact .still
  | finState =>
      rw [Shared.ledger_finish]
      exact .finish hstage
  | @wake f' hlock =>
      refine .schedule fun f hf => ?_
      rw [List.mem_singleton] at hf
      cases hf
      exact hwake f' rfl
  | _ => exact .still

theorem WorkerStep.moves (h : WorkerStep S i x.shared (x.workers i) s' w') (hx : Owned x)
    (hm : Marked x) (hg : ∀ F ∈ (x.workers i).pc.woken S x.shared, Unheld x F)
    (hq : ∀ b f, (x.workers i).pc = .requeue b f → q f) :
    Move q x.board (x.put i s' w').board := by
  have hsus : ∀ F ∈ (x.workers i).pc.woken S x.shared, ∀ T, x.board.ticket F = some T →
      T ∈ x.board.suspended := fun F hF T hT => hm.suspended_woken hx (hg F hF) hF hT
  have hl := hx.linked i
  have hhand : ∀ F, 0 < (x.workers i).pc.hand F → Resumable (x.shared.fibers F) :=
    fun F hF => hx.resumable_hand hF
  have halone : ∀ F, 0 < (x.workers i).pc.runs F → x.board.Alone i F := fun F hF =>
    hx.alone (hF.trans_le (x.workers i).runs_le)
  have hown : ∀ F, (x.workers i).own F = 1 → x.board.Absent F := fun F hF => hx.absent (.inr hF)
  have hkept : ∀ F, (x.workers i).funcFiber = some F → x.board.ticket F = none := fun F hF =>
    congrArg Fiber.ticket (hx.kept i F hF)
  have hstage : x.board.stage i = (x.workers i).pc.stage := rfl
  rw [Sys.board_put]
  generalize x.workers i = w at h hg hq hsus hl hhand halone hown hkept hstage
  cases h with
  | @selectTook ff d tk rest hsel hok hlock =>
      obtain ⟨hel, -, pre, post, htasks, rfl⟩ := S.selects.took hsel
      exact .take hstage htasks hel
  | @poppedNone ff d need => cases need <;> exact .still_put hstage rfl
  | @poppedSome ff d need tk => cases need <;> exact .still_put hstage rfl
  | @tickleSkip ff d tk hidle => cases tk <;> exact .still_put hstage rfl
  | @tickleRead ff d tk hidle => cases tk <;> exact .still_put hstage rfl
  | @tickleWrite ff d tk => cases tk <;> exact .still_put hstage rfl
  | @dispatchDone ff d f thr hdone =>
      have hres := hhand f (by simp [Pc.hand, jobHolds, Work.holds])
      rw [hres.not_done] at hdone
      cases hdone
  | dispatchFiber => exact .resume hstage
  | @dispatchReset d f T g thr =>
      rw [Shared.ledger_setFiber]
      exact .load hstage (hown f (by simp [Worker.own])) (hkept f rfl)
  | @dispatchNew d T g thr =>
      rw [Shared.ledger_newFiber]
      exact .load hstage (hx.absent (i := i) (.inl (hx.fresh _ le_rfl).2)) (hm.fresh _ le_rfl)
  | @call ff d b f hst => exact .still_put hstage (Shared.ledger_setState _ _)
  | @swapIn ff d b f => exact .start hstage (halone f (by simp [Pc.runs]))
  | @code ff d b f c c' s' hc =>
      refine .of_put hstage (hc.moves hx hm hstage (fun f' hf' => ?_) fun o c' hop f hf => ?_)
      · subst hf'
        exact hsus f' (by simp [Pc.woken])
      · refine hsus f ?_
        cases c <;> simp_all [Pc.woken, Code.eventOp]
  | @yieldSwap ff d b f st r =>
      rw [Shared.ledger_save]
      exact .leave hstage (halone f (by simp [Pc.runs]))
  | @finSwap ff d b f st =>
      rw [Shared.ledger_save]
      exact .leave hstage (halone f (by simp [Pc.runs]))
  | checkFiber | checkLeft => exact .drop hstage
  | requeue => exact .requeue hstage (hq _ _ rfl)
  | @retire ff d f =>
      rw [Shared.ledger_setFiber]
      exact .retire hstage (halone f (by simp [Pc.runs])) fun T hT => hm.finished f T hl hT
  | @expireWrite ff d now evs m gs hexp => cases gs <;> exact .still_put hstage rfl
  | expireSched =>
      refine .of_put hstage (.schedule fun f hf => ?_)
      obtain ⟨g, -, hg⟩ := List.mem_map.1 hf
      cases hg
  | eventsIo he => exact .of_put hstage (Move.event he hsus)
  | _ => exact .still_put hstage rfl

/-- **The machine refines the board.** -/
theorem board_moves {a : Act κ n N} (hx : Owned x) (hm : Marked x) (hg : WakesUnheld S x a)
    (hq : ∀ i ch b f, a = .worker i ch → (x.workers i).pc = .requeue b f → q f)
    (h : SysStep S x a x') : Move q x.board x'.board := by
  cases h with
  | worker hw => exact hw.moves hx hm hg fun b f hpc => hq _ _ b f rfl hpc
  | schedule =>
      refine .schedule fun f hf => ?_
      obtain ⟨g, -, hg⟩ := List.mem_map.1 hf
      cases hg
  | @spawn g thr =>
      have hb : Sys.board { x with shared := x.shared.spawn g thr } =
          { x.board with toLedger := x.board.toLedger.spawn x.shared.nextFiber thr } := by
        unfold Sys.board
        rw [Shared.ledger_spawn]
      rw [hb]
      exact .spawn (hx.absent (i := ⟨0, S.pos⟩) (.inl (hx.fresh _ le_rfl).2)) (hm.fresh _ le_rfl)
  | addTimer | timerAdd | tickleRead | tickleWrite | stop | stopTickle | stopWrite | join | clock =>
      exact .still

theorem Marked.of_reach (h : Reach (Sys.step S) (WakesUnheld S) {} x) : Marked x :=
  h.inv Marked.init fun hr hm hg hs =>
    hm.step (Owned.of_reach hr) (Owned.of_reach (hr.tail hg hs)) (step_inv hs).2

/-- **The rule for boards**: what holds of the empty board and is kept by moves holds of the board of
every state reached, if wake-ups meet fibers that no worker has and `q` holds of the fibers that are
put back. -/
theorem reach_board {G : Sys κ n N → Act κ n N → Prop} {q : Board κ n N → ℕ → Prop}
    {P : Board κ n N → Prop} (hwakes : ∀ x a, G x a → WakesUnheld S x a)
    (hq : ∀ x i ch b f, G x (.worker i ch) → (x.workers i).pc = .requeue b f → q x.board f)
    (h₀ : P ({} : Sys κ n N).board) (hstep : ∀ b b', P b → Move (q b) b b' → P b')
    (h : Reach (Sys.step S) G {} x) : P x.board := by
  refine Reach.inv (P := fun x => P x.board) h h₀ fun {x x' a} hr hb hg hs => ?_
  have hr' := hr.mono hwakes
  refine hstep _ _ hb (board_moves (Owned.of_reach hr') (Marked.of_reach hr') (hwakes _ _ hg) ?_
    (step_inv hs).2)
  rintro i ch b f rfl hpc
  exact hq x i ch b f hg hpc

end Refines

end Eva01.Runtime
