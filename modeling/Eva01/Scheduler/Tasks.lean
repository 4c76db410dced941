import Eva01.Lib.Runs
import Mathlib

/-!
The task list `m_tasks` of the scheduler: `schedule`, and the selection loop of `Scheduler::run`.

The loop walks an iterator over the list under the queue mutex. A task pinned to another thread is
meant to be skipped, but the `continue` that does so comes before any increment of the iterator, so
the walk stays on that task. Of the task it takes, the loop asserts that it holds a function or a
fiber that is not `RUNNING`; what it holds is of any type here, and whether the assertion is true of
it (`ok`) an argument, since it depends on the states of the fibers at that time. `loopBody` is one
turn of the loop, `selectTask` what the loop amounts to: it takes the first task if the worker may
take it, finds nothing in an empty list, and otherwise turns for ever (`loop_ends_iff`,
`loop_spins`).

`selectSkipping` is the selection the comment in the loop describes: the first task the worker may
take, wherever it stands. The two agree exactly on the lists whose first task the worker may take.
-/

namespace Eva01.Scheduler

open Eva01.Lib.Runs

/-- A task: what is to be run, and the thread it is pinned to, `-1` for none. -/
structure Task (α : Type*) where
  work : α
  threadId : ℤ
  deriving DecidableEq, Repr

variable {α : Type*}

/-- The task is not pinned, or pinned to the thread `w`. -/
def Task.eligible (w : ℤ) (t : Task α) : Bool := !(t.threadId != -1 && t.threadId != w)

def Task.unpinned (t : Task α) : Bool := t.threadId == -1

lemma eligible_iff {w : ℤ} {t : Task α} : t.eligible w = true ↔ t.threadId = -1 ∨ t.threadId = w := by
  simp only [Task.eligible, Bool.not_and, Bool.or_eq_true, Bool.not_eq_true', bne_eq_false_iff_eq]

/-! ### `schedule` -/

/-- `schedule(f, thr)`: the list, and whether it was empty, which is what `tickle` depends on. -/
def schedule (tasks : List (Task α)) (f : α) (thr : ℤ) : List (Task α) × Bool :=
  (tasks ++ [⟨f, thr⟩], tasks.isEmpty)

/-- `schedule(a, b, thr)` over a range. -/
def scheduleRange (tasks : List (Task α)) (fs : List α) (thr : ℤ) : List (Task α) × Bool :=
  (tasks ++ fs.map fun f => ⟨f, thr⟩, tasks.isEmpty)

/-! ### The selection loop -/

/-- Where the loop stands: at an iterator position, behind it with what it moved into `tk`, or at the
`ASSERT` that has failed. -/
inductive Cursor (α : Type*)
  | at (it : ℕ)
  | out (tk : Option (Task α))
  | aborted

/-- One turn of the loop on the list and the iterator, for the thread `w`. -/
def loopBody (ok : α → Bool) (w : ℤ) : Cursor α × List (Task α) → Cursor α × List (Task α)
  | (.out tk, tasks) => (.out tk, tasks)
  | (.aborted, tasks) => (.aborted, tasks)
  | (.at it, tasks) =>
      match tasks[it]? with
      | none => (.out none, tasks)
      | some t =>
          -- the `continue` of the source: `it` is not advanced
          if !t.eligible w then (.at it, tasks)
          else if !ok t.work then (.aborted, tasks)
          else (.out (some t), tasks.eraseIdx it)

/-- The loop ends with `tk` taken and `rest` left. -/
def LoopEnds (ok : α → Bool) (w : ℤ) (tasks : List (Task α)) (tk : Option (Task α))
    (rest : List (Task α)) : Prop :=
  ∃ k : ℕ, (loopBody ok w)^[k] (.at 0, tasks) = (.out tk, rest)

/-- What a selection comes to. -/
inductive Selected (α : Type*)
  | nothing
  | took (t : Task α) (rest : List (Task α))
  | spins
  /-- The `ASSERT` on the task fails. -/
  | fails

/-- The selection of `Scheduler::run`, in closed form. -/
def selectTask (ok : α → Bool) (w : ℤ) : List (Task α) → Selected α
  | [] => .nothing
  | t :: rest => if t.eligible w then if ok t.work then .took t rest else .fails else .spins

section Loop

variable {ok : α → Bool} {w : ℤ} {t : Task α} {tasks : List (Task α)}

lemma loop_out (tk : Option (Task α)) (k : ℕ) :
    (loopBody ok w)^[k] (.out tk, tasks) = (.out tk, tasks) :=
  Function.iterate_fixed rfl k

/-- **On a first task pinned to another thread the loop never moves.** -/
theorem loop_spins (h : t.eligible w = false) (rest : List (Task α)) (k : ℕ) :
    (loopBody ok w)^[k] (.at 0, t :: rest) = (.at 0, t :: rest) :=
  Function.iterate_fixed (by simp [loopBody, h]) k

lemma loop_nil (k : ℕ) :
    (loopBody ok w)^[k + 1] (.at 0, ([] : List (Task α))) = (.out none, []) := by
  rw [Function.iterate_succ_apply]
  exact loop_out none k

lemma loop_took (h : t.eligible w = true) (hok : ok t.work = true) (rest : List (Task α)) (k : ℕ) :
    (loopBody ok w)^[k + 1] (.at 0, t :: rest) = (.out (some t), rest) := by
  rw [Function.iterate_succ_apply]
  have hbody : loopBody ok w (.at 0, t :: rest) = (.out (some t), rest) := by simp [loopBody, h, hok]
  rw [hbody, loop_out]

lemma loop_fails (h : t.eligible w = true) (hok : ok t.work = false) (rest : List (Task α)) (k : ℕ) :
    (loopBody ok w)^[k + 1] (.at 0, t :: rest) = (.aborted, t :: rest) := by
  rw [Function.iterate_succ_apply]
  have hbody : loopBody ok w (.at 0, t :: rest) = (.aborted, t :: rest) := by simp [loopBody, h, hok]
  rw [hbody]
  exact Function.iterate_fixed rfl k

lemma selectTask_took {rest : List (Task α)} (h : selectTask ok w tasks = .took t rest) :
    tasks = t :: rest ∧ t.eligible w = true ∧ ok t.work = true := by
  cases tasks with
  | nil => cases h
  | cons u ts =>
      simp only [selectTask] at h
      split at h
      · split at h
        · cases h
          exact ⟨rfl, ‹_›, ‹_›⟩
        · cases h
      · cases h

/-- The loop of the code never leaves a non-empty list without a task. -/
lemma selectTask_nothing (h : selectTask ok w tasks = .nothing) : tasks = [] := by
  cases tasks with
  | nil => rfl
  | cons t ts =>
      simp only [selectTask] at h
      split at h
      · split at h <;> cases h
      · cases h

theorem loop_ends_iff (ok : α → Bool) (w : ℤ) (tasks : List (Task α)) (tk : Option (Task α))
    (rest : List (Task α)) :
    LoopEnds ok w tasks tk rest ↔
      (selectTask ok w tasks = .nothing ∧ tk = none ∧ rest = tasks) ∨
      (∃ t, selectTask ok w tasks = .took t rest ∧ tk = some t) := by
  constructor
  · rintro ⟨k, hk⟩
    cases k with
    | zero => simp at hk
    | succ k =>
        cases tasks with
        | nil =>
            rw [loop_nil] at hk
            simp only [Prod.mk.injEq, Cursor.out.injEq] at hk
            exact .inl ⟨rfl, hk.1.symm, hk.2.symm⟩
        | cons t ts =>
            by_cases h : t.eligible w = true
            · by_cases hok : ok t.work = true
              · rw [loop_took h hok] at hk
                simp only [Prod.mk.injEq, Cursor.out.injEq] at hk
                exact .inr ⟨t, by simp [selectTask, h, hok, hk.2], hk.1.symm⟩
              · rw [loop_fails h (by simpa using hok)] at hk
                simp at hk
            · rw [loop_spins (by simpa using h)] at hk
              simp at hk
  · rintro (⟨hsel, rfl, rfl⟩ | ⟨t, hsel, rfl⟩)
    · rw [selectTask_nothing hsel]
      exact ⟨1, loop_nil 0⟩
    · obtain ⟨rfl, h, hok⟩ := selectTask_took hsel
      exact ⟨1, loop_took h hok rest 0⟩

end Loop

/-! ### What the selection is for -/

/-- The selection a worker is meant to make: the first task it may take, wherever it stands. -/
def selectSkipping (ok : α → Bool) (w : ℤ) (tasks : List (Task α)) : Selected α :=
  match tasks.find? (Task.eligible w) with
  | none => .nothing
  | some t => if ok t.work then .took t (tasks.eraseP (Task.eligible w)) else .fails

/-- What every selection discipline has to guarantee: the task taken is one the worker may take and of
which the `ASSERT` is true, exactly that task leaves the list, nothing is taken only when there is
nothing to take, and the `ASSERT` fails on a task of the list. -/
structure Selects (sel : (α → Bool) → ℤ → List (Task α) → Selected α) : Prop where
  took {ok : α → Bool} {w : ℤ} {tasks rest : List (Task α)} {t : Task α} :
    sel ok w tasks = .took t rest → t.eligible w = true ∧ ok t.work = true ∧
      ∃ pre post, tasks = pre ++ t :: post ∧ rest = pre ++ post
  nothing {ok : α → Bool} {w : ℤ} {tasks : List (Task α)} : sel ok w tasks = .nothing →
    ∀ t ∈ tasks, t.eligible w = false
  fails {ok : α → Bool} {w : ℤ} {tasks : List (Task α)} : sel ok w tasks = .fails →
    ∃ t ∈ tasks, ok t.work = false

theorem selectTask_selects : Selects (selectTask : _ → _ → List (Task α) → Selected α) where
  took h := by
    obtain ⟨rfl, hw, hok⟩ := selectTask_took h
    exact ⟨hw, hok, [], _, rfl, rfl⟩
  nothing h := by
    rw [selectTask_nothing h]
    exact fun t ht => by cases ht
  fails {ok w tasks} h := by
    cases tasks with
    | nil => cases h
    | cons u ts =>
        simp only [selectTask] at h
        split at h
        · split at h
          · cases h
          · exact ⟨u, List.mem_cons_self, by simpa using ‹¬ ok u.work = true›⟩
        · cases h

theorem selectSkipping_selects : Selects (selectSkipping : _ → _ → List (Task α) → Selected α) where
  took {ok w tasks rest t} h := by
    cases hf : tasks.find? (Task.eligible w) with
    | none => simp [selectSkipping, hf] at h
    | some u =>
        simp only [selectSkipping, hf] at h
        split at h <;> cases h
        obtain ⟨hu, pre, post, rfl, hpre⟩ := List.find?_eq_some_iff_append.1 hf
        refine ⟨hu, ‹_›, pre, post, rfl, ?_⟩
        have hpre' : ∀ b ∈ pre, ¬ Task.eligible w b = true := fun b hb => by simpa using hpre b hb
        rw [List.eraseP_append_right _ hpre', List.eraseP_cons_of_pos hu]
  nothing {ok w tasks} h := by
    cases hf : tasks.find? (Task.eligible w) with
    | none => simpa using hf
    | some u =>
        simp only [selectSkipping, hf] at h
        split at h <;> cases h
  fails {ok w tasks} h := by
    cases hf : tasks.find? (Task.eligible w) with
    | none => simp [selectSkipping, hf] at h
    | some u =>
        simp only [selectSkipping, hf] at h
        split at h
        · cases h
        · exact ⟨u, List.mem_of_find?_eq_some hf, by simpa using ‹¬ ok u.work = true›⟩

/-- The selection the source describes: the loop ends, the first task the worker may take is taken
out, the others keep their order, and the list is unchanged when there is no such task. -/
def TakesFirst (ok : α → Bool) (w : ℤ) (tasks : List (Task α)) : Prop :=
  LoopEnds ok w tasks (tasks.find? (Task.eligible w)) (tasks.eraseP (Task.eligible w))

/-- The list is empty, or the worker may take its first task and the `ASSERT` is true of it. -/
def HeadEligible (ok : α → Bool) (w : ℤ) (tasks : List (Task α)) : Prop :=
  ∀ t ∈ tasks.head?, t.eligible w = true ∧ ok t.work = true

theorem takesFirst_iff (ok : α → Bool) (w : ℤ) (tasks : List (Task α)) :
    TakesFirst ok w tasks ↔ HeadEligible ok w tasks := by
  unfold TakesFirst HeadEligible
  rw [loop_ends_iff]
  cases tasks with
  | nil => simp [selectTask]
  | cons t ts =>
      by_cases h : t.eligible w = true
      · by_cases hok : ok t.work = true
        · simp [selectTask, h, hok]
        · simp [selectTask, h, hok]
      · simp [selectTask, h]

/-! ### Histories of the list -/

/-- The operations on the list: the two forms of `schedule`, and a selection by the thread `w`, with
what the `ASSERT` is true of at that time. -/
inductive QueueOp (α : Type*)
  | schedule (f : α) (thr : ℤ)
  | scheduleRange (fs : List α) (thr : ℤ)
  | select (w : ℤ) (ok : α → Bool)

/-- The list, with the history of what was put in and of what was taken out by which thread. -/
structure Queue (α : Type*) where
  tasks : List (Task α) := []
  scheduled : List (Task α) := []
  taken : List (Task α × ℤ) := []

/-- One operation. A selection that spins holds the mutex for ever, and one whose `ASSERT` fails
ends the process: nothing follows it. -/
def Queue.step (q : Queue α) : QueueOp α → Option (Queue α)
  | .schedule f thr =>
      some { q with
        tasks := (Scheduler.schedule q.tasks f thr).1, scheduled := q.scheduled ++ [⟨f, thr⟩] }
  | .scheduleRange fs thr =>
      some { q with
        tasks := (Scheduler.scheduleRange q.tasks fs thr).1
        scheduled := q.scheduled ++ fs.map fun f => ⟨f, thr⟩ }
  | .select w ok =>
      match selectTask ok w q.tasks with
      | .nothing => some q
      | .took t rest => some { q with tasks := rest, taken := q.taken ++ [(t, w)] }
      | .spins | .fails => none

/-- Everything scheduled has been taken or is still in the list, in the order of scheduling, and
whoever took a task was allowed to. -/
structure Queue.Sound (q : Queue α) : Prop where
  order : q.scheduled = q.taken.map Prod.fst ++ q.tasks
  pins : ∀ p ∈ q.taken, p.1.eligible p.2 = true

theorem Queue.step_sound {q q' : Queue α} {op : QueueOp α} (hq : q.Sound)
    (h : q.step op = some q') : q'.Sound := by
  obtain ⟨horder, hpins⟩ := hq
  cases op with
  | schedule f thr =>
      simp only [Queue.step, Option.some.injEq] at h
      subst h
      exact ⟨by simp [Scheduler.schedule, horder], hpins⟩
  | scheduleRange fs thr =>
      simp only [Queue.step, Option.some.injEq] at h
      subst h
      exact ⟨by simp [Scheduler.scheduleRange, horder], hpins⟩
  | select w ok =>
      simp only [Queue.step] at h
      cases hsel : selectTask ok w q.tasks with
      | nothing =>
          rw [hsel] at h
          cases h
          exact ⟨horder, hpins⟩
      | spins | fails => simp [hsel] at h
      | took t rest =>
          simp only [hsel, Option.some.injEq] at h
          subst h
          obtain ⟨htasks, hw, -⟩ := selectTask_took hsel
          refine ⟨by simp [horder, htasks], fun p hp => ?_⟩
          rcases List.mem_append.1 hp with hp | hp
          · exact hpins p hp
          · rw [List.mem_singleton.1 hp]; exact hw

theorem Queue.reach_sound {q : Queue α} (h : Reach Queue.step Free {} q) : q.Sound :=
  h.inv ⟨rfl, by simp⟩ fun _ hq _ hs => Queue.step_sound hq hs

/-- **Selection.** The loop takes the first task the worker may take, and ends, exactly on the lists
that are empty or start with such a task, of which the `ASSERT` is true. Over any history of
`schedule` calls and of selections that end, no task is lost or taken twice, unpinned tasks are
taken in the order they were scheduled, and a pinned task is only taken by its own thread. -/
theorem selection_iff_head_eligible :
    (∀ (ok : α → Bool) (w : ℤ) (tasks : List (Task α)),
      TakesFirst ok w tasks ↔ HeadEligible ok w tasks) ∧
    ∀ q : Queue α, Reach Queue.step Free {} q →
      q.scheduled.Perm (q.taken.map Prod.fst ++ q.tasks) ∧
      q.scheduled.filter Task.unpinned =
        (q.taken.map Prod.fst).filter Task.unpinned ++ q.tasks.filter Task.unpinned ∧
      ∀ t w, (t, w) ∈ q.taken → t.threadId = -1 ∨ t.threadId = w := by
  refine ⟨takesFirst_iff, fun q hq => ?_⟩
  obtain ⟨horder, hpins⟩ := Queue.reach_sound hq
  refine ⟨by rw [horder], by rw [horder, List.filter_append], fun t w htw => ?_⟩
  exact eligible_iff.1 (hpins _ htw)

/-- A worker `0` that finds a task pinned to thread `1` in front of one it may take; the `ASSERT` is
true of both. -/
theorem selection_stuck_on_pinned :
    ¬ TakesFirst (fun _ => true) 0 [(⟨"pinned", 1⟩ : Task String), ⟨"free", -1⟩] := by
  rw [takesFirst_iff]
  intro h
  have := h ⟨"pinned", 1⟩ rfl
  simp [Task.eligible] at this

end Eva01.Scheduler
