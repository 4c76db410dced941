import Eva01.Runtime.Links

/-!
`m_active_threads` and the workers it counts.

A worker counts itself in when it has taken a task, and out when the task has given control back.
Between the two it is at one of the points of `Pc.counted`. The increment is made for every task;
the decrements are in the branch of a fiber that is not done and in the branch of a function. A
fiber that is done when it is taken goes to neither: its worker falls through to the branch of an
idle one, and the increment stays for good (`count_kept_iff_live`). From then on no `shouldStop()`
holds any more, and `stop()` waits for ever.

What the task list holds at the start is arbitrary, and so are the fibers.
-/

namespace Eva01.Runtime

open Eva01.IOManager (sizeInc sizeDec sizeInc_of_lt sizeDec_of_pos)
open Eva01.Lib.Runs

variable {κ : Type*} {n N : ℕ}

/-- Whether a worker is counted in `m_active_threads`. -/
def Pc.counted : Pc κ N → ℕ
  | .tickleRead (some _) | .tickleWrite (some _) | .dispatch (some _) | .call _ _ | .swapIn _ _
  | .exec _ _ _ | .back _ _ _ => 1
  | _ => 0

lemma Pc.counted_le (pc : Pc κ N) : pc.counted ≤ 1 := by
  unfold counted
  split <;> omega

/-- A worker is about to branch on a fiber that is done. -/
def Worker.TakesDone (s : Shared κ N) (w : Worker κ N) : Prop :=
  ∃ f thr, w.pc = .dispatch (some ⟨.fiber f, thr⟩) ∧ (s.fibers f).state.isDone = true

section Step

variable {S : Setup κ n N} {i : Fin n} {s s' : Shared κ N} {w w' : Worker κ N}

theorem WorkerStep.active (h : WorkerStep S i s w s' w') (hlive : ¬ w.TakesDone s)
    (hpos : w.pc.counted ≤ s.active) (hlt : s.active < 2 ^ 31) :
    s'.active + w.pc.counted = s.active + w'.pc.counted := by
  cases h with
  | @poppedNone ff d need => cases need <;> rfl
  | @poppedSome ff d need tk =>
      have hinc : sizeInc s.active = s.active + 1 := sizeInc_of_lt (by omega)
      cases need <;> simp only [Pc.counted, hinc, if_true, if_false, Bool.false_eq_true]
  | @tickleSkip ff d tk | @tickleRead ff d tk | @tickleWrite ff d tk => cases tk <;> rfl
  | @dispatchDone ff d f thr hdone => exact absurd ⟨f, thr, rfl, hdone⟩ hlive
  | back =>
      have hdec : sizeDec s.active = s.active - 1 := sizeDec_of_pos hpos
      simp only [Pc.counted] at hpos ⊢
      omega
  | code hc => exact congrArg (· + 1) hc.counters.1
  | @expireWrite ff d now evs m gs hexp => cases gs <;> rfl
  | eventsIo hs => rw [(event_frame hs).active]; rfl
  | _ => rfl

/-- A worker that takes a fiber that is done is not counted any more, and the count stays. -/
lemma WorkerStep.leaks (h : WorkerStep S i s w s' w') (hdone : w.TakesDone s) :
    s'.active = s.active ∧ w.pc.counted = 1 ∧ w'.pc.counted = 0 := by
  obtain ⟨f, thr, hpc, hd⟩ := hdone
  cases h with
  | dispatchDone => exact ⟨rfl, rfl, rfl⟩
  | dispatchFiber hlive =>
      cases hpc
      rw [hd] at hlive
      cases hlive
  | _ => cases hpc

end Step

/-! ### The machine -/

/-- `m_active_threads` is the number of workers that are between its increment for a task and the
end of the task. -/
def Counted (x : Sys κ n N) : Prop := x.shared.active = ∑ i, (x.workers i).pc.counted

/-- The worker that takes the step does not take a fiber that is done. -/
def TakesLive (x : Sys κ n N) : Act κ n N → Prop
  | .worker i _ => ¬ (x.workers i).TakesDone x.shared
  | _ => True

/-- All workers are at the head of their loop, and none is counted. The task list and the fibers
may be anything. -/
structure Begins (x : Sys κ n N) : Prop where
  pc : ∀ i, (x.workers i).pc = .select
  active : x.shared.active = 0

section Machine

variable {S : Setup κ n N} {x x' : Sys κ n N} {a : Act κ n N}

lemma Begins.counted (h : Begins x) : Counted x := by
  simp [Counted, h.active, h.pc, Pc.counted]

lemma Counted.worker (h : Counted x) {i : Fin n} {s' : Shared κ N} {w' : Worker κ N}
    (hw : WorkerStep S i x.shared (x.workers i) s' w') :
    Counted (x.put i s' w') ↔ ¬ (x.workers i).TakesDone x.shared := by
  have hsum : x.shared.active = ∑ j, (x.workers j).pc.counted := h
  have hself := le_sum (f := fun j => (x.workers j).pc.counted) i
  have hlt := x.sum_lt S (v := fun w => w.pc.counted) fun w => w.pc.counted_le
  have hchange := x.sum_put i s' w' fun w => w.pc.counted
  have hgoal : Counted (x.put i s' w') ↔
      s'.active = ∑ j, ((x.put i s' w').workers j).pc.counted := Iff.rfl
  rw [hgoal]
  constructor
  · intro hkept hdone
    obtain ⟨hsame, hone, hzero⟩ := hw.leaks hdone
    omega
  · intro hlive
    have hact := hw.active hlive (by omega) (by omega)
    omega

theorem Counted.step_iff (h : Counted x) (hs : SysStep S x a x') : Counted x' ↔ TakesLive x a := by
  cases hs with
  | worker hw => exact h.worker hw
  | schedule | spawn | addTimer | timerAdd | tickleRead | tickleWrite | stop | stopTickle | stopWrite
  | join | clock => exact iff_of_true h trivial

/-- **The workers are counted exactly as long as no fiber is taken that is done.** In every run, from
any task list and any fibers, whose workers never branch on a fiber that is done, `m_active_threads`
is the number of workers that are executing a task; so it is 0 when none is, and `shouldStop()` then
depends on the rest alone. The first worker that does take a fiber that is done ends this. -/
theorem count_kept_iff_live :
    (∀ x₀ x : Sys κ n N, Begins x₀ → Reach (Sys.step S) TakesLive x₀ x →
      Counted x ∧ ((∀ i, (x.workers i).pc.counted = 0) →
        x.shared.active = 0 ∧ x.shared.shouldStop = (!x.shared.timers.hasTimers &&
          x.shared.autoStop && x.shared.stopping && x.shared.tasks.isEmpty &&
          x.shared.fds.pending == 0))) ∧
    (∀ (x x' : Sys κ n N) (a : Act κ n N), Counted x → x.step S a = some x' →
      (Counted x' ↔ TakesLive x a)) := by
  refine ⟨fun x₀ x hb hr => ?_, fun x x' a hx hs => hx.step_iff (step_inv hs).2⟩
  have hx : Counted x := hr.inv hb.counted fun _ hx hg hs => (hx.step_iff (step_inv hs).2).2 hg
  refine ⟨hx, fun hnone => ?_⟩
  have hzero : x.shared.active = 0 := by
    rw [hx]
    exact Finset.sum_eq_zero fun i _ => hnone i
  exact ⟨hzero, by simp [Shared.shouldStop, hzero]⟩

end Machine

/-! ### A fiber that is scheduled twice -/

/-- One worker, and tasks that end at once. -/
def ending : Setup Unit 1 0 := .ofProg (fun _ => .ret) Nat.one_pos small_one

/-- A fiber that was handed to `schedule` twice before the worker began. -/
def twice : Sys Unit 1 0 :=
  { shared := { tasks := [⟨.fiber 0, -1⟩, ⟨.fiber 0, -1⟩]
                fibers := fun _ => { ctx := .entry (some (.user ())), ticket := some 0 }
                nextFiber := 1, nextTicket := 1 } }

/-- **The count is lost.** The worker executes the fiber, takes it a second time when it is done, and
is back at the head of its loop with `m_active_threads` at 1, the task list empty and `stop()` called:
`shouldStop()` is false although nothing is left to do. -/
theorem count_leaked :
    Begins twice ∧ ∃ x, Reach (Sys.step ending) Free twice x ∧ ¬ Counted x ∧
      (x.workers 0).pc = .select ∧ x.shared.active = 1 ∧ x.shared.tasks = [] ∧
      x.shared.stopping = true ∧ x.shared.shouldStop = false := by
  have h : (run (Sys.step ending) (fun _ _ => true) twice
      (.stop :: steps 0 19 ++ [.clock 3000, .worker 0 (.poll [])] ++ steps 0 4)).any (fun x =>
        decide ((x.workers 0).pc = .select ∧ x.shared.active = 1 ∧ x.shared.tasks = [] ∧
          x.shared.stopping = true ∧ x.shared.shouldStop = false)) = true := by decide +kernel
  obtain ⟨x, hr, hx⟩ := exists_reach_of_run (G := Free) (fun _ _ _ => trivial) h
  obtain ⟨hpc, hact, hrest⟩ := of_decide_eq_true hx
  refine ⟨⟨fun _ => rfl, rfl⟩, x, hr, fun hc => ?_, hpc, hact, hrest⟩
  simp [Counted, hact, hpc, Pc.counted] at hc

end Eva01.Runtime
