import Eva01.Runtime.Links

/-!
No worker sleeps over a task, as long as none is scheduled from outside while all workers are about
to sleep (`no_lost_wakeup`).

A worker looks into the task list first and counts itself in `m_idle_threads` later, whereas
`schedule` puts the task into the list first and reads `m_idle_threads` to decide on the byte for
the tickle pipe. A task that comes while every worker is in between (`Pc.unannounced`) is not seen by
any of them. A task that comes from a worker is seen at least by that worker, which looks into the
list again when it is done; only the one that has dispatched a finished fiber does not.
-/

namespace Eva01.Runtime

open Eva01.IOManager (Target sizeInc sizeDec sizeInc_of_lt sizeDec_of_pos)
open Eva01.Lib.Runs

variable {κ : Type*} {n N : ℕ}

/-! ### Idle workers -/

/-- Whether a worker is counted in `m_idle_threads`. -/
def Pc.idles : Pc κ N → ℕ
  | .stopTest | .stopActive | .stopPending | .wait | .blocked _ | .expireNow _ | .expireRead _ _
  | .expireWrite _ _ | .expireSched _ _ | .events _ | .drain _ | .decIdle => 1
  | _ => 0

/-- Whether a worker has looked into the task list in vain and is not counted as idle yet. -/
def Pc.unannounced : Pc κ N → Bool
  | .popped none _ | .tickleRead none | .tickleWrite none | .dispatch none | .idleTest
  | .incIdle => true
  | _ => false

/-- In `epoll_wait`. -/
def Pc.isBlocked : Pc κ N → Bool
  | .blocked _ => true
  | _ => false

/-- Whether a worker will not look into the task list before it is woken. -/
def Pc.asleep : Pc κ N → Bool
  | .stopTest | .stopActive | .stopPending | .wait | .blocked _ => true
  | pc => pc.unannounced

/-- The fiber of the task a worker is about to branch on. -/
def Pc.dispatched : Pc κ N → Option ℕ
  | .dispatch (some ⟨.fiber f, _⟩) => some f
  | _ => none

lemma Pc.idles_le (pc : Pc κ N) : pc.idles ≤ 1 := by
  unfold idles
  split <;> omega

/-- A worker that sleeps and is counted as idle by nobody is about to count itself. -/
lemma Pc.unannounced_of_asleep {pc : Pc κ N} (h : pc.asleep = true) (hi : pc.idles = 0) :
    pc.unannounced = true := by
  unfold asleep at h
  split at h
  · cases hi
  · cases hi
  · cases hi
  · cases hi
  · cases hi
  · exact h

section Step

variable {S : Setup κ n N} {i : Fin n} {s s' : Shared κ N} {w w' : Worker κ N}

theorem WorkerStep.idles (h : WorkerStep S i s w s' w') (hpos : w.pc.idles ≤ s.idle)
    (hlt : s.idle < 2 ^ 31) : s'.idle + w.pc.idles = s.idle + w'.pc.idles := by
  cases h with
  | @poppedNone ff d need => cases need <;> rfl
  | @poppedSome ff d need tk => cases need <;> rfl
  | code hc => exact hc.counters.2
  | incIdle =>
      have hinc : sizeInc s.idle = s.idle + 1 := sizeInc_of_lt (by omega)
      simp only [Pc.idles, hinc]
  | decIdle =>
      have hdec : sizeDec s.idle = s.idle - 1 := sizeDec_of_pos hpos
      simp only [Pc.idles] at hpos ⊢
      omega
  | @expireWrite ff d now evs m gs hexp => cases gs <;> rfl
  | eventsIo hs => rw [(event_frame hs).idle]; rfl
  | _ => rfl

/-- **A worker falls asleep over an empty list only**, and takes nothing away when it sleeps. -/
theorem WorkerStep.asleep (h : WorkerStep S i s w s' w') (hsel : S.sel = Scheduler.selectTask)
    (hd : ∀ f ∈ w.pc.dispatched, (s.fibers f).state.isDone = false) (hw : w'.pc.asleep = true) :
    s'.tasks = [] ∨ (w.pc.asleep = true ∧ s'.tasks = s.tasks ∧ s.pipe ≤ s'.pipe) := by
  cases h with
  | selectNothing hnone =>
      rw [hsel] at hnone
      exact .inl (Scheduler.selectTask_nothing hnone)
  | poppedNone | dispatchNone | idleTest | incIdle | stopTimers | stopTest | stopActive | stopBusy
  | stopNo | wait | eintr =>
      exact .inr ⟨rfl, rfl, le_rfl⟩
  | @tickleSkip ff d tk | @tickleRead ff d tk =>
      cases tk with
      | none => exact .inr ⟨rfl, rfl, le_rfl⟩
      | some tk => cases hw
  | @tickleWrite ff d tk =>
      cases tk with
      | none => exact .inr ⟨rfl, rfl, Nat.le_succ _⟩
      | some tk => cases hw
  | dispatchDone hdone =>
      rw [hd _ rfl] at hdone
      cases hdone
  | @poppedSome ff d need tk => cases need <;> cases hw
  | @expireWrite ff d now evs m gs hexp => cases gs <;> cases hw
  | _ => cases hw

end Step

/-! ### The machine -/

/-- **Somebody is there for a new task**: no other thread schedules into the empty list while all
workers have looked into it and are not counted as idle yet. And no worker takes a finished fiber for
a task. -/
def SomeoneListens (x : Sys κ n N) : Act κ n N → Prop
  | .schedule _ _ | .spawn _ _ =>
      x.shared.tasks.isEmpty = true → ∃ i, (x.workers i).pc.unannounced = false
  | .worker i _ => ∀ f ∈ (x.workers i).pc.dispatched, (x.shared.fibers f).state.isDone = false
  | _ => True

instance (x : Sys κ n N) (a : Act κ n N) : Decidable (SomeoneListens x a) :=
  match a with
  | .schedule _ _ | .spawn _ _ => inferInstanceAs (Decidable
      (x.shared.tasks.isEmpty = true → ∃ i, (x.workers i).pc.unannounced = false))
  | .worker i _ => inferInstanceAs (Decidable
      (∀ f ∈ (x.workers i).pc.dispatched, (x.shared.fibers f).state.isDone = false))
  | .addTimer _ _ _ | .external _ | .stop | .stopTickle | .join | .clock _ =>
      inferInstanceAs (Decidable True)

structure Watched (x : Sys κ n N) : Prop where
  idle : x.shared.idle = ∑ i, (x.workers i).pc.idles
  /-- a task in the list will be looked at, or there is a byte to wake somebody -/
  awake : x.shared.tasks ≠ [] → 0 < x.shared.pipe ∨ ∃ i, (x.workers i).pc.asleep = false

section Machine

variable {S : Setup κ n N} {x x' : Sys κ n N} {i : Fin n} {s' : Shared κ N} {w' : Worker κ N}

/-- **`m_idle_threads` counts the idle workers**, through a step of a worker. -/
lemma idle_put (h : x.shared.idle = ∑ j, (x.workers j).pc.idles)
    (hw : WorkerStep S i x.shared (x.workers i) s' w') :
    (x.put i s' w').shared.idle = ∑ j, ((x.put i s' w').workers j).pc.idles := by
  have hle := le_sum (f := fun j => (x.workers j).pc.idles) i
  have hlt := x.sum_lt S (v := fun w => w.pc.idles) fun w => w.pc.idles_le
  have hstep := hw.idles (by omega) (by omega)
  have hchange := x.sum_put i s' w' fun w => w.pc.idles
  have hs : (x.put i s' w').shared = s' := rfl
  rw [hs]
  omega

lemma Watched.init : Watched ({} : Sys κ n N) where
  idle := by simp [Pc.idles]
  awake h := absurd rfl h

lemma Watched.worker (h : Watched x) (hsel : S.sel = Scheduler.selectTask)
    (hd : ∀ f ∈ (x.workers i).pc.dispatched, (x.shared.fibers f).state.isDone = false)
    (hw : WorkerStep S i x.shared (x.workers i) s' w') : Watched (x.put i s' w') := by
  have hs : (x.put i s' w').shared = s' := rfl
  refine ⟨idle_put h.idle hw, fun htasks => ?_⟩
  by_cases hsleep : w'.pc.asleep = true
  · rcases hw.asleep hsel hd hsleep with hnil | ⟨hself, hsame, hpipe⟩
    · exact absurd hnil htasks
    · rw [hs, hsame] at htasks
      rcases h.awake htasks with hpos | ⟨j, hj⟩
      · exact .inl (hpos.trans_le hpipe)
      · have hji : j ≠ i := by
          rintro rfl
          rw [hself] at hj
          cases hj
        exact .inr ⟨j, by rwa [Sys.put_workers_of_ne hji]⟩
  · exact .inr ⟨i, by rw [Sys.put_workers_self]; simpa using hsleep⟩

lemma Watched.shared (h : Watched x) (hw : x'.workers = x.workers)
    (hidle : x'.shared.idle = x.shared.idle) (htasks : x'.shared.tasks = x.shared.tasks)
    (hpipe : x.shared.pipe ≤ x'.shared.pipe) : Watched x' := by
  refine ⟨by rw [hidle, hw]; exact h.idle, fun hne => ?_⟩
  rw [htasks] at hne
  rw [hw]
  exact (h.awake hne).imp_left fun hpos => hpos.trans_le hpipe

/-- **A task that is scheduled into the empty list writes the byte, or somebody will look.** -/
lemma Watched.scheduled (h : Watched x) (hw : x'.workers = x.workers)
    (hidle : x'.shared.idle = x.shared.idle)
    (hpipe : x'.shared.pipe = if x.shared.tasks.isEmpty && 0 < x.shared.idle
      then x.shared.pipe + 1 else x.shared.pipe)
    (hg : x.shared.tasks.isEmpty = true → ∃ i, (x.workers i).pc.unannounced = false) :
    Watched x' := by
  refine ⟨by rw [hidle, hw]; exact h.idle, fun _ => ?_⟩
  rw [hw, hpipe]
  by_cases hnil : x.shared.tasks = []
  · by_cases hpos : 0 < x.shared.idle
    · simp [hnil, hpos]
    · obtain ⟨i, hi⟩ := hg (by simp [hnil])
      refine .inr ⟨i, ?_⟩
      by_contra hsleep
      have hle := le_sum (f := fun j => (x.workers j).pc.idles) i
      have hidles := h.idle
      rw [Pc.unannounced_of_asleep (by simpa using hsleep) (by omega)] at hi
      cases hi
  · simpa [hnil] using h.awake hnil

theorem Watched.step {a : Act κ n N} (h : Watched x) (hsel : S.sel = Scheduler.selectTask)
    (hg : SomeoneListens x a) (hs : SysStep S x a x') : Watched x' := by
  cases hs with
  | worker hw => exact h.worker hsel hg hw
  | schedule | spawn => exact h.scheduled rfl rfl rfl hg
  | addTimer | timerAdd | tickleRead | stop | stopTickle | join | clock =>
      exact h.shared rfl rfl rfl le_rfl
  | tickleWrite | stopWrite => exact h.shared rfl rfl rfl (Nat.le_succ _)

/-- **No lost wake-up.** In every run in which nobody schedules from outside while all workers are
about to sleep, and no finished fiber is taken for a task, there is no state with a task in the list,
every worker in `epoll_wait` and no byte in the pipe. -/
theorem no_lost_wakeup (hsel : S.sel = Scheduler.selectTask)
    (h : Reach (Sys.step S) SomeoneListens {} x) :
    ¬ (x.shared.tasks ≠ [] ∧ (∀ i, (x.workers i).pc.isBlocked = true) ∧ x.shared.pipe = 0) := by
  rintro ⟨htasks, hblocked, hpipe⟩
  have hx : Watched x := h.inv Watched.init fun _ hx hg hs => hx.step hsel hg (step_inv hs).2
  rcases hx.awake htasks with hpos | ⟨i, hi⟩
  · omega
  · have hb := hblocked i
    unfold Pc.isBlocked at hb
    split at hb
    · rename_i hpc
      rw [hpc] at hi
      cases hi
    · cases hb

end Machine

/-! ### A task nobody looks at -/

/-- Two workers, and tasks that just end. -/
def returning : Setup ℕ 2 0 := .ofProg (fun _ => .ret) Nat.two_pos small_two

/-- With one worker in `epoll_wait` the task writes the byte, although the other has looked into the
list before it came and blocks as well. -/
theorem no_lost_wakeup_returning :
    ∃ x : Sys ℕ 2 0, x.shared.tasks ≠ [] ∧ (∀ i, (x.workers i).pc.isBlocked = true) ∧
      x.shared.pipe ≠ 0 := by
  have h : (run (Sys.step returning) (fun x a => decide (SomeoneListens x a)) {}
      (steps 0 8 ++ steps 1 1 ++ .schedule [0] (-1) :: steps 1 7)).any (fun x =>
        decide (x.shared.tasks ≠ [] ∧ ∀ i, (x.workers i).pc.isBlocked = true)) = true := by
    decide +kernel
  obtain ⟨x, hr, hx⟩ := exists_reach_of_run (fun _ _ => of_decide_eq_true) h
  obtain ⟨htasks, hblocked⟩ := of_decide_eq_true hx
  exact ⟨x, htasks, hblocked, fun hpipe => no_lost_wakeup rfl hr ⟨htasks, hblocked, hpipe⟩⟩

/-- **A task is slept over.** Both workers have looked into the list when the task comes, and none is
counted as idle, so that no byte is written; then both block. -/
theorem slept_over :
    ∃ x, Reach (Sys.step returning) Free {} x ∧ (∃ tk ∈ x.shared.tasks, tk.threadId = -1) ∧
      (∀ i, (x.workers i).pc.isBlocked = true) ∧ x.shared.pipe = 0 := by
  have h : (run (Sys.step returning) (fun _ _ => true) {}
      (steps 0 1 ++ steps 1 4 ++ .schedule [0] (-1) :: steps 0 7 ++ steps 1 4)).any (fun x =>
        decide ((∃ tk ∈ x.shared.tasks, tk.threadId = -1) ∧
          (∀ i, (x.workers i).pc.isBlocked = true) ∧ x.shared.pipe = 0)) = true := by decide +kernel
  obtain ⟨x, hr, hx⟩ := exists_reach_of_run (G := Free) (fun _ _ _ => trivial) h
  exact ⟨x, hr, of_decide_eq_true hx⟩

end Eva01.Runtime
