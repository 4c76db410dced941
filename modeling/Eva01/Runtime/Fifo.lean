import Eva01.Runtime.Refines

/-!
The task list is a queue (`tasks_in_order`): whatever is scheduled, by whichever thread, is taken in
the order of the `schedule` calls, each task once and none out of turn.

`scheduled` reads off what a step is about to do which tasks it hands to `schedule`; `taken` is the
task that a worker leaves the selection loop with. A history collects both along a run, from any
state.
-/

namespace Eva01.Runtime

open Eva01.IOManager (Target)
open Eva01.Lib.Runs

variable {κ : Type*} {n N : ℕ}

/-! ### What a step schedules -/

namespace Shared

/-- The tasks that `schedule` makes. -/
def jobs (s : Shared κ N) (ws : List (Target ℕ (Func κ N))) (thr : ℤ) : List (Job κ N) :=
  (issue s.nextTicket ws).map fun w => ⟨w, thr⟩

/-- What an event operation hands to `schedule`. -/
def fires (s : Shared κ N) (o : IOManager.Op N ℕ κ) : List (Target ℕ (Func κ N)) :=
  match o.apply (s.fds.ctx o.fd) s.fds.pending with
  | .ok out => out.targets.map asWork
  | .error _ => []

end Shared

/-- At a point of the code of a fiber. -/
def Code.scheduled (S : Setup κ n N) (s : Shared κ N) (c : Code κ N) : List (Job κ N) :=
  match c.eventOp S with
  | some (o, _) => s.jobs (s.fires o) (-1)
  | none =>
      match c with
      | .user k =>
          match S.prog k with
          | .schedule gs thr _ => s.jobs (gs.map fun g => .func (.user g)) thr
          | .spawn _ thr _ => [⟨.fiber s.nextFiber, thr⟩]
          | _ => []
      | .wake f => [⟨.fiber f, -1⟩]
      | _ => []

/-- At a point of a worker. -/
def Pc.scheduled (S : Setup κ n N) (s : Shared κ N) : Pc κ N → List (Job κ N)
  | .exec _ _ c => c.scheduled S s
  | .requeue _ f => [⟨.fiber f, -1⟩]
  | .expireSched gs _ => s.jobs (gs.map .func) (-1)
  | .events (.io fd r :: _) => s.jobs (s.fires (.scheduleEvent fd r)) (-1)
  | _ => []

/-- The tasks that a step schedules. -/
def Sys.scheduled (S : Setup κ n N) (x : Sys κ n N) : Act κ n N → List (Job κ N)
  | .worker i _ => (x.workers i).pc.scheduled S x.shared
  | .schedule gs thr => x.shared.jobs (gs.map fun g => .func (.user g)) thr
  | .spawn _ thr => [⟨.fiber x.shared.nextFiber, thr⟩]
  | _ => []

/-- The task with which a worker leaves the selection. -/
def Pc.taking : Pc κ N → Pc κ N → List (Job κ N)
  | .select, .popped (some tk) _ => [tk]
  | _, _ => []

/-- The task that a step takes from the list. -/
def Sys.taken (x x' : Sys κ n N) : Act κ n N → List (Job κ N)
  | .worker i _ => (x.workers i).pc.taking (x'.workers i).pc
  | _ => []

/-- A run from `x₀` to a state, with what was scheduled on the way and what was taken. -/
inductive History (S : Setup κ n N) (x₀ : Sys κ n N) :
    List (Job κ N) → List (Job κ N) → Sys κ n N → Prop
  | start : History S x₀ [] [] x₀
  | step {calls taken : List (Job κ N)} {x x' : Sys κ n N} {a : Act κ n N} :
      History S x₀ calls taken x → x.step S a = some x' →
      History S x₀ (calls ++ x.scheduled S a) (taken ++ x.taken x' a) x'

/-! ### One step -/

section Step

variable {S : Setup κ n N} {i : Fin n} {s s' : Shared κ N} {w w' : Worker κ N}

lemma Shared.addEvent_tasks {f : ℕ} {a : Adding κ N} : (s.addEvent f a).tasks = s.tasks := by
  unfold Shared.addEvent
  split <;> rfl

lemma event_tasks_fires {o : IOManager.Op N ℕ κ} (h : s.event o = some s') :
    s'.tasks = s.tasks ++ s.jobs (s.fires o) (-1) := by
  rcases Shared.event_cases h with ⟨a, ha, rfl⟩ | ⟨out, hout, -, rfl⟩
  · simp [Shared.fires, ha, Shared.jobs, issue, Shared.crash]
  · have hfires : s.fires o = out.targets.map asWork := by rw [Shared.fires, hout]
    rw [hfires, Shared.deliver]
    split
    · rename_i hnil
      rw [List.isEmpty_iff] at hnil
      simp [hnil, Shared.jobs, issue]
    · rfl

/-- **What a fiber does to the list**: it appends what it schedules. -/
lemma CodeStep.appends {f : ℕ} {c c' : Code κ N} (h : CodeStep S s f c s' c') :
    s'.tasks = s.tasks ++ c.scheduled S s := by
  cases h with
  | event hop hs => simpa [Code.scheduled, hop] using event_tasks_fires hs
  | schedule hp => simp [Code.scheduled, Code.eventOp, hp, Shared.tasks_schedule, Shared.jobs]
  | spawn hp =>
    simp [Code.scheduled, Code.eventOp, hp, Shared.spawn, Shared.tasks_schedule, issue]
    rfl
  | wake => simp [Code.scheduled, Code.eventOp, Shared.tasks_schedule, issue]
  | finish hp => rcases hp with ⟨hp, -⟩ | ⟨hp, -⟩ <;> simp [Code.scheduled, Code.eventOp, hp]
  | makeTimer hp =>
    rcases hp with ⟨g, r, next, hp, -⟩ | ⟨next, hp, -⟩ <;> simp [Code.scheduled, Code.eventOp, hp]
  | branch hp | yieldReady hp | io hp | addEvent hp => simp [Code.scheduled, Code.eventOp, hp]
  | timerAdd hs =>
    have htasks : s.tasks = s'.tasks := congrArg (fun r => r.1.tasks) hs
    simp [Code.scheduled, Code.eventOp, htasks]
  | evAdd => simp [Code.scheduled, Code.eventOp, Shared.addEvent_tasks]
  | ioEnd hc => rcases hc with rfl | rfl <;> simp [Code.scheduled, Code.eventOp, Shared.endIo]
  | _ => simp [Code.scheduled, Code.eventOp, Shared.crash, Shared.leave, Shared.finish, Shared.setFiber]

/-- **What a worker does to the list**: it takes from the front, or appends. -/
lemma WorkerStep.queue (h : WorkerStep S i s w s' w') (hsel : S.sel = Scheduler.selectTask) :
    s.tasks ++ w.pc.scheduled S s = w.pc.taking w'.pc ++ s'.tasks := by
  cases h with
  | selectTook hs =>
    rw [hsel] at hs
    simp [Pc.scheduled, Pc.taking, (Scheduler.selectTask_took hs).1]
  | yieldSwap | finSwap => simp [Pc.scheduled, Pc.taking, Code.scheduled, Code.eventOp, Shared.setFiber]
  | code hc => simp [Pc.scheduled, Pc.taking, hc.appends]
  | requeue => simp [Pc.scheduled, Pc.taking, Shared.tasks_schedule, issue]
  | expireSched => simp [Pc.scheduled, Pc.taking, Shared.tasks_schedule, Shared.jobs]
  | eventsIo hs => simp [Pc.scheduled, Pc.taking, event_tasks_fires hs]
  | _ => simp [Pc.scheduled, Pc.taking, Shared.crash, Shared.setFiber, Shared.newFiber]

end Step

section Machine

variable {S : Setup κ n N} {x₀ x x' : Sys κ n N} {a : Act κ n N} {calls taken : List (Job κ N)}

/-- **One step**: what it takes is at the front, what it schedules goes to the back. -/
lemma SysStep.queue (h : SysStep S x a x') (hsel : S.sel = Scheduler.selectTask) :
    x.shared.tasks ++ x.scheduled S a = x.taken x' a ++ x'.shared.tasks := by
  cases h with
  | @worker i ch s' w' hw =>
    have hself : (x.put i s' w').workers i = w' := Sys.put_workers_self i s' w'
    have htasks := hw.queue hsel
    rw [← hself] at htasks
    exact htasks
  | schedule => rfl
  | spawn => rfl
  | addTimer | timerAdd | tickleRead | tickleWrite | stop | stopTickle | stopWrite | join | clock =>
    simp [Sys.scheduled, Sys.taken]

lemma History.of_reach (h : Reach (Sys.step S) Free x₀ x) :
    ∃ calls taken, History S x₀ calls taken x := by
  induction h with
  | refl => exact ⟨[], [], .start⟩
  | tail _ _ hs ih =>
    obtain ⟨calls, taken, hist⟩ := ih
    exact ⟨_, _, hist.step hs⟩

/-- **Tasks are taken in the order in which they were scheduled.** In every run, from any state: what
was in the list at the start and what the workers, the timers, the events and other threads scheduled
since, in the order of the calls, is what the workers took, in the order in which they took it, and
then what is still in the list. No task is lost, doubled or overtaken. -/
theorem tasks_in_order (hsel : S.sel = Scheduler.selectTask) (h : History S x₀ calls taken x) :
    x₀.shared.tasks ++ calls = taken ++ x.shared.tasks := by
  induction h with
  | start => rw [List.append_nil, List.nil_append]
  | @step calls taken x x' a _ hs ih =>
    calc x₀.shared.tasks ++ (calls ++ x.scheduled S a)
        = taken ++ (x.shared.tasks ++ x.scheduled S a) := by
          rw [← List.append_assoc, ih, List.append_assoc]
      _ = taken ++ (x.taken x' a ++ x'.shared.tasks) := by rw [(step_inv hs).2.queue hsel]
      _ = taken ++ x.taken x' a ++ x'.shared.tasks := (List.append_assoc _ _ _).symm

end Machine

/-- Two workers; the task 0 schedules two more. -/
def branching : Setup ℕ 2 0 :=
  .ofProg (fun k => if k = 0 then .schedule [1, 2] (-1) 3 else .ret) Nat.two_pos small_two

theorem tasks_in_order_branching :
    ∃ (calls taken : List (Job ℕ 0)) (x : Sys ℕ 2 0), History branching {} calls taken x ∧
      x.shared.tasks.length = 2 ∧ (x.workers 0).pc = .exec (.func (.user 0) 0) 0 (.user 3) ∧
      (x.workers 1).pc = .popped (some ⟨.func (.user 5) 1, -1⟩) true ∧
      [] ++ calls = taken ++ x.shared.tasks := by
  have h : (run (Sys.step branching) (fun _ _ => true) {}
      (.schedule [0, 5] (-1) :: steps 0 7 ++ steps 1 1)).any (fun x =>
        decide (x.shared.tasks.length = 2 ∧
          (x.workers 0).pc = .exec (.func (.user 0) 0) 0 (.user 3) ∧
          (x.workers 1).pc = .popped (some ⟨.func (.user 5) 1, -1⟩) true)) = true := by
    decide +kernel
  obtain ⟨x, hr, hx⟩ := exists_reach_of_run (G := Free) (fun _ _ _ => trivial) h
  obtain ⟨hlen, hzero, hone⟩ := of_decide_eq_true hx
  obtain ⟨calls, taken, hist⟩ := History.of_reach hr
  exact ⟨calls, taken, x, hist, hlen, hzero, hone, tasks_in_order rfl hist⟩

end Eva01.Runtime
