import Eva01.Lib.Runs
import Mathlib

/-!
`Mutex`: a `pthread_mutex_t`, and `m_thread`, the id of the thread that has it.

`lock()` acquires and then writes the id, `unlock()` writes 0 and then releases, and
`isLockedByThisThread()` reads `m_thread` without any lock. Each of these is a step of its own, and
any steps of other threads may come between. `lock()` of a thread that has the mutex never gets
past `pthread_mutex_lock`; `unlock()` is called by the thread that has the mutex.

What `m_thread` is follows from who has the mutex and where that thread is (`State.shown`): only an
owner writes it, once behind its acquire and once before its release. So a thread outside the two
functions reads its own id exactly if it has the mutex (`owner_exact`).

Types: `ι` for the threads.
-/

namespace Eva01.Mutex

open Eva01.Lib.Runs

/-! ### The steps -/

/-- Where a thread is in `lock()` and `unlock()`. -/
inductive Pc
  | outside
  /-- In `lock()`, until `pthread_mutex_lock` returns. -/
  | locking
  /-- In `lock()`, before `m_thread = GetThreadId()`. -/
  | acquired
  /-- In `unlock()`, before `m_thread = 0`. -/
  | unlocking
  /-- In `unlock()`, until `pthread_mutex_unlock` returns. -/
  | cleared
  deriving DecidableEq, Repr

/-- What `GetThreadId()` returns in each thread. -/
structure Ids (ι : Type*) where
  id : ι → ℤ
  injective : Function.Injective id
  ne_zero : ∀ i, id i ≠ 0

/-- An answer of `isLockedByThisThread()`, and whether the thread had the mutex then. -/
structure Answer (ι : Type*) where
  thread : ι
  answer : Bool
  held : Bool
  deriving DecidableEq, Repr

structure State (ι : Type*) where
  /-- The thread that has `m_mutex`: it has acquired it and has not released it. -/
  owner : Option ι := none
  /-- `m_thread` -/
  thread : ℤ := 0
  pc : ι → Pc := fun _ => .outside
  answers : List (Answer ι) := []

inductive Act (ι : Type*)
  /-- `lock()` is called. -/
  | lock (i : ι)
  /-- `pthread_mutex_lock` returns. -/
  | acquire (i : ι)
  /-- `m_thread = GetThreadId()` -/
  | write (i : ι)
  /-- `unlock()` is called. -/
  | unlock (i : ι)
  /-- `m_thread = 0` -/
  | clear (i : ι)
  /-- `pthread_mutex_unlock` returns. -/
  | release (i : ι)
  /-- `isLockedByThisThread()` -/
  | ask (i : ι)

variable {ι : Type*}

namespace State

def isLockedByThisThread (T : Ids ι) (s : State ι) (i : ι) : Bool := s.thread == T.id i

variable [DecidableEq ι]

def goto (s : State ι) (i : ι) (pc : Pc) : State ι := { s with pc := Function.update s.pc i pc }

/-- The answer that the thread `i` gets now. -/
def answer (T : Ids ι) (s : State ι) (i : ι) : Answer ι :=
  { thread := i, answer := s.isLockedByThisThread T i, held := s.owner == some i }

def step (T : Ids ι) (s : State ι) : Act ι → Option (State ι)
  | .lock i => if s.pc i = .outside then some (s.goto i .locking) else none
  | .acquire i =>
      if s.pc i = .locking ∧ s.owner = none then some { s.goto i .acquired with owner := some i }
      else none
  | .write i =>
      if s.pc i = .acquired then some { s.goto i .outside with thread := T.id i } else none
  | .unlock i =>
      if s.pc i = .outside ∧ s.owner = some i then some (s.goto i .unlocking) else none
  | .clear i => if s.pc i = .unlocking then some { s.goto i .cleared with thread := 0 } else none
  | .release i => if s.pc i = .cleared then some { s.goto i .outside with owner := none } else none
  | .ask i =>
      if s.pc i = .outside then some { s with answers := s.answers ++ [s.answer T i] } else none

end State

section Step

variable [DecidableEq ι]

/-- What a step can do. -/
inductive Step (T : Ids ι) (s : State ι) : State ι → Prop
  | lock {i : ι} : s.pc i = .outside → Step T s (s.goto i .locking)
  | acquire {i : ι} : s.pc i = .locking → s.owner = none →
      Step T s { s.goto i .acquired with owner := some i }
  | write {i : ι} : s.pc i = .acquired → Step T s { s.goto i .outside with thread := T.id i }
  | unlock {i : ι} : s.pc i = .outside → s.owner = some i → Step T s (s.goto i .unlocking)
  | clear {i : ι} : s.pc i = .unlocking → Step T s { s.goto i .cleared with thread := 0 }
  | release {i : ι} : s.pc i = .cleared → Step T s { s.goto i .outside with owner := none }
  | ask {i : ι} : s.pc i = .outside → Step T s { s with answers := s.answers ++ [s.answer T i] }

theorem step_inv {T : Ids ι} {s s' : State ι} {a : Act ι} (h : s.step T a = some s') :
    Step T s s' := by
  cases a
  all_goals
    simp only [State.step, Option.ite_none_right_eq_some] at h
    obtain ⟨hg, h⟩ := h
    cases h
  case lock => exact .lock hg
  case acquire => exact .acquire hg.1 hg.2
  case write => exact .write hg
  case unlock => exact .unlock hg.1 hg.2
  case clear => exact .clear hg
  case release => exact .release hg
  case ask => exact .ask hg

end Step

/-! ### What `m_thread` is -/

/-- The places in the two functions in which a thread has the mutex. -/
def Pc.holds : Pc → Bool
  | .acquired | .unlocking | .cleared => true
  | .outside | .locking => false

/-- What `m_thread` is while its owner is there. -/
def Pc.shown (id : ℤ) : Pc → ℤ
  | .acquired | .cleared => 0
  | .outside | .locking | .unlocking => id

/-- What `m_thread` is, by who has the mutex. -/
def State.shown (T : Ids ι) (s : State ι) : ℤ :=
  match s.owner with
  | none => 0
  | some i => (s.pc i).shown (T.id i)

structure Inv (T : Ids ι) (s : State ι) : Prop where
  thread : s.thread = s.shown T
  owner : ∀ i, (s.pc i).holds = true → s.owner = some i
  answers : ∀ r ∈ s.answers, r.answer = r.held

section Inv

variable {T : Ids ι} {s s' : State ι} {i : ι} {pc : Pc}

lemma shown_of_owner (h : s.owner = some i) : s.shown T = (s.pc i).shown (T.id i) := by
  unfold State.shown
  rw [h]

/-- **Who reads its own id has the mutex**, outside the two functions. -/
lemma Inv.asked (hs : Inv T s) (hpc : s.pc i = .outside) :
    s.isLockedByThisThread T i = true ↔ s.owner = some i := by
  unfold State.isLockedByThisThread
  rw [beq_iff_eq, hs.thread]
  constructor
  · intro h
    cases howner : s.owner with
    | none =>
      rw [State.shown, howner] at h
      exact absurd h.symm (T.ne_zero i)
    | some j =>
      -- the owner shows 0, which is nobody's id, or its own
      rw [shown_of_owner howner] at h
      cases hj : s.pc j <;> rw [hj] at h
      case acquired | cleared => exact absurd h.symm (T.ne_zero i)
      case outside | locking | unlocking => rw [T.injective h]
  · intro howner
    rw [shown_of_owner howner, hpc]
    rfl

theorem Inv.init : Inv T ({} : State ι) where
  thread := rfl
  owner i h := by cases h
  answers r h := by cases h

variable [DecidableEq ι]

lemma shown_goto_of_ne (h : s.owner ≠ some i) : (s.goto i pc).shown T = s.shown T := by
  unfold State.shown State.goto
  cases howner : s.owner with
  | none => rfl
  | some j =>
    have hne : j ≠ i := by
      rintro rfl
      exact h howner
    simp only [Function.update_of_ne hne]

lemma shown_goto_self (h : s.owner = some i) : (s.goto i pc).shown T = pc.shown (T.id i) := by
  rw [shown_of_owner (s := s.goto i pc) h]
  simp [State.goto]

/-- The thread `i` goes to a place where it has the mutex only if it is the owner. -/
lemma Inv.owner_goto (hs : Inv T s) (h : pc.holds = true → s.owner = some i) :
    ∀ j, ((s.goto i pc).pc j).holds = true → s.owner = some j := by
  intro j hj
  by_cases hji : j = i
  · subst hji
    simp only [State.goto, Function.update_self] at hj
    exact h hj
  · simp only [State.goto, Function.update_of_ne hji] at hj
    exact hs.owner j hj

theorem Inv.step (hs : Inv T s) (h : Step T s s') : Inv T s' := by
  cases h with
  | @lock i hpc =>
    refine ⟨hs.thread.trans ?_, hs.owner_goto (by simp [Pc.holds]), hs.answers⟩
    by_cases howner : s.owner = some i
    · rw [shown_goto_self howner, shown_of_owner howner, hpc]
      rfl
    · rw [shown_goto_of_ne howner]
  | @acquire i hpc hfree =>
    -- nobody had the mutex, so nobody was in a place of an owner
    have hnone : ∀ j, (s.pc j).holds = false := by
      intro j
      by_contra hj
      have := hs.owner j (by simpa using hj)
      rw [hfree] at this
      cases this
    refine ⟨?_, fun j hj => ?_, hs.answers⟩
    · have hzero : s.thread = 0 := by rw [hs.thread, State.shown, hfree]
      show s.thread = _
      simp [hzero, State.shown, State.goto, Pc.shown]
    · by_cases hji : j = i
      · rw [hji]
      · simp [State.goto, Function.update_of_ne hji, hnone j] at hj
  | @write i hpc =>
    have howner : s.owner = some i := hs.owner i (by rw [hpc]; rfl)
    refine ⟨?_, hs.owner_goto (by simp [Pc.holds]), hs.answers⟩
    have hshown : (s.goto i .outside).shown T = Pc.outside.shown (T.id i) := shown_goto_self howner
    exact hshown.symm
  | @unlock i hpc howner =>
    refine ⟨hs.thread.trans ?_, hs.owner_goto fun _ => howner, hs.answers⟩
    rw [shown_goto_self howner, shown_of_owner howner, hpc]
    rfl
  | @clear i hpc =>
    have howner : s.owner = some i := hs.owner i (by rw [hpc]; rfl)
    refine ⟨?_, hs.owner_goto fun _ => howner, hs.answers⟩
    have hshown : (s.goto i .cleared).shown T = Pc.cleared.shown (T.id i) := shown_goto_self howner
    exact hshown.symm
  | @release i hpc =>
    have howner : s.owner = some i := hs.owner i (by rw [hpc]; rfl)
    refine ⟨?_, fun j hj => ?_, hs.answers⟩
    · show s.thread = 0
      rw [hs.thread, shown_of_owner howner, hpc]
      rfl
    · have hout : Pc.outside.holds = true → s.owner = some i := by simp [Pc.holds]
      have := hs.owner_goto hout j hj
      rw [howner] at this
      cases this
      simp [State.goto, Pc.holds] at hj
  | @ask i hpc =>
    refine ⟨hs.thread, hs.owner, fun r hr => ?_⟩
    rcases List.mem_append.1 hr with hr | hr
    · exact hs.answers r hr
    · rw [List.mem_singleton.1 hr]
      show s.isLockedByThisThread T i = (s.owner == some i)
      rw [Bool.eq_iff_iff, beq_iff_eq]
      exact hs.asked hpc

/-- **The owner query is exact.** In every interleaving, a thread outside `lock()` and `unlock()`
that asks is told that it has the mutex if and only if it has it; and `m_thread` is 0 whenever nobody
has it. -/
theorem owner_exact (T : Ids ι) (s : State ι) (h : Reach (State.step T) Free {} s) :
    (∀ i, s.pc i = .outside → (s.isLockedByThisThread T i = true ↔ s.owner = some i)) ∧
    (∀ r ∈ s.answers, r.answer = r.held) ∧ (s.owner = none → s.thread = 0) := by
  have hs : Inv T s := h.inv Inv.init fun _ hs _ hstep => hs.step (step_inv hstep)
  refine ⟨fun i hpc => hs.asked hpc, hs.answers, fun hfree => ?_⟩
  rw [hs.thread, State.shown, hfree]

/-- Two threads, with the ids 1 and 2. -/
def twoIds : Ids (Fin 2) where
  id i := i.val + 1
  injective i j h := by
    have : i.val = j.val := by simpa using h
    exact Fin.ext this
  ne_zero i := by omega

theorem owner_exact_contended : ∃ s : State (Fin 2), Reach (State.step twoIds) Free {} s ∧
    s.pc 1 = .locking ∧ s.answers.map Answer.answer = [false, true] ∧
    (s.isLockedByThisThread twoIds 0 = true ↔ s.owner = some 0) ∧
    ∀ r ∈ s.answers, r.answer = r.held := by
  have h : (run (State.step twoIds) (fun _ _ => true) {}
      [.lock 0, .acquire 0, .ask 1, .write 0, .lock 1, .ask 0]).any (fun s =>
        decide (s.pc 1 = .locking ∧ s.answers.map Answer.answer = [false, true] ∧
          s.pc 0 = .outside)) = true := by decide +kernel
  obtain ⟨s, hr, hs⟩ := exists_reach_of_run (G := Free) (fun _ _ _ => trivial) h
  obtain ⟨hwaits, hanswers, hout⟩ := of_decide_eq_true hs
  exact ⟨s, hr, hwaits, hanswers, (owner_exact twoIds s hr).1 0 hout, (owner_exact twoIds s hr).2.1⟩

end Inv

end Eva01.Mutex
