import Eva01.Lib.Runs
import Mathlib

/-!
How the threads of a scheduler are started, stopped and joined.

`Scheduler::start` makes its `Thread`s under the scheduler's mutex. The constructor of a `Thread`
starts the thread and waits on a semaphore until `Thread::run` has published the id and the name.
Everything that a worker does with the scheduler it does under the mutex, so no worker does anything
before all of them have been made. `stop` sets its flags, joins the threads one by one without the
mutex, and destroys the `Thread`s under it. Any threads may call the two, at the same time as well.

A `Thread` is used by its thread as long as that runs, through a plain pointer. In `lifecycle_safe`
it is there as long, the assertion of `start` does not fail and no null pointer is joined, provided
that no `start` comes to a scheduler that is running, no `stop` to one that is being stopped, and no
wait on a semaphore is interrupted. An interrupted wait throws, and the `Thread` is gone before its
thread has used it (`interrupted`). `pthread_create` does not fail here, and no worker calls `stop`.

What the workers do between their beginning and their end is not part of this: a worker may at any
time go through a section under the mutex, and ends behind a `shouldStop()` that has answered true.
When it does is not said, but for that the flags are set then; so `stop` returns provided that every
worker has had that answer.
-/

namespace Eva01.Scheduler.Lifecycle

open Eva01.Lib.Runs

/-! ### The machine -/

/-- A `Thread`. -/
structure Thread where
  /-- `m_name` -/
  name : List Char
  /-- `m_id`, none for -1 -/
  id : Option ℕ := none
  /-- `m_thread` is not 0 -/
  handle : Bool := true
  /-- The count of `m_semaphore`. -/
  tokens : ℕ := 0
  deriving DecidableEq, Repr

/-- Where a thread is in `Thread::run`. -/
inductive RunPc
  /-- Before the thread-local variables are set. -/
  | entry
  /-- Before `m_id` is. -/
  | identify
  /-- Before `SetName`. -/
  | rename
  /-- Before `notify`. -/
  | notify
  /-- In `m_cb`, which is `Scheduler::run`. -/
  | callback
  /-- Behind a `shouldStop()` that has answered true. -/
  | leaving
  | ended
  deriving DecidableEq, Repr

/-- A thread of the system. -/
structure Os where
  pc : RunPc := .entry
  /-- `t_thread_name` -/
  name : List Char := ['U', 'N', 'K', 'N', 'O', 'W', 'N']
  /-- The name that the system has for it. -/
  comm : List Char := []
  /-- It has been in a section under the mutex of the scheduler. -/
  worked : Bool := false
  deriving DecidableEq, Repr

/-- Where a call of `start` is, behind its test; it has the mutex. -/
inductive StartPc
  /-- So many threads are made. -/
  | create (i : ℕ)
  /-- In the constructor of the thread `k`, which will be number `i`: before the semaphore. -/
  | wait (i k : ℕ)
  deriving DecidableEq, Repr

/-- Where a call of `stop` is, behind its first section. -/
inductive StopPc
  /-- Before the loop over `m_threads`. -/
  | flagged
  /-- In the loop at an index, with the end that it had when it began. -/
  | joining (i n : ℕ)
  /-- Before the last section. -/
  | clear
  deriving DecidableEq, Repr

structure State where
  objs : ℕ → Option Thread := fun _ => none
  os : ℕ → Option Os := fun _ => none
  /-- The number that the next thread gets. -/
  next : ℕ := 0
  /-- `m_threads` -/
  threads : List (Option ℕ) := []
  stopped : Bool := true
  stopping : Bool := false
  autoStop : Bool := false
  /-- The call of `start` that has `m_mutex`; the other sections are single steps. -/
  starting : Option StartPc := none
  /-- The calls of `stop` under way. -/
  stops : List StopPc := []
  /-- An assertion has failed, or an object has been used that is not there. -/
  crashed : Bool := false

/-- The scheduler: `m_thread_count` and `m_name`. -/
structure Setup where
  count : ℕ
  name : List Char

/-- The name of a worker. -/
def Setup.nameOf (S : Setup) (i : ℕ) : List Char := S.name ++ '_' :: (Nat.repr i).toList

inductive Act
  | start
  /-- The next step of the call of `start`. -/
  | create
  /-- The wait on the semaphore fails, and the constructor throws. -/
  | interrupt
  | stop
  /-- The next step of a call of `stop`. -/
  | join (j : ℕ)
  /-- The next step of a thread. -/
  | run (k : ℕ)
  /-- `shouldStop()` answers true to a worker. -/
  | shouldStop (k : ℕ)
  /-- A worker that has had the answer ends. -/
  | finish (k : ℕ)

namespace State

def crash (s : State) : State := { s with crashed := true }

/-- The next step of `start`. -/
def startStep (S : Setup) (s : State) : StartPc → Option State
  | .create i =>
      if i < S.count then
        -- `new Thread`: the object is made and the thread started
        some { s with objs := Function.update s.objs s.next (some { name := S.nameOf i })
                      os := Function.update s.os s.next (some {})
                      next := s.next + 1, starting := some (.wait i s.next) }
      else some { s with starting := none }
  | .wait i k =>
      match s.objs k with
      | some t =>
          if 0 < t.tokens then
            some { s with objs := Function.update s.objs k (some { t with tokens := t.tokens - 1 })
                          threads := s.threads.set i (some k), starting := some (.create (i + 1)) }
          else none
      | none => some s.crash

/-- `Thread::join` of the thread `k`, in the call `j` of `stop`, and on to the next element. -/
def join (s : State) (j i n k : ℕ) (t : Thread) : Option State :=
  if t.handle then
    match s.os k with
    | some o =>
        if o.pc = .ended then
          some { s with objs := Function.update s.objs k (some { t with handle := false })
                        stops := s.stops.set j (.joining (i + 1) n) }
        else none
    | none => none
  else some { s with stops := s.stops.set j (.joining (i + 1) n) }

/-- The next step of the call `j` of `stop`. -/
def stopStep (s : State) (j : ℕ) : StopPc → Option State
  | .flagged => some { s with stops := s.stops.set j (.joining 0 s.threads.length) }
  | .joining i n =>
      if i = n then some { s with stops := s.stops.set j .clear }
      else
        match s.threads[i]? with
        | some (some k) =>
            match s.objs k with
            | some t => s.join j i n k t
            | none => some s.crash
        -- a null pointer, or an element that another call has cleared
        | _ => some s.crash
  | .clear =>
      if s.starting.isNone then
        some { s with objs := fun k => if some k ∈ s.threads then none else s.objs k
                      threads := [], stopping := false, stopped := true, autoStop := false
                      stops := s.stops.eraseIdx j }
      else none

/-- The next step of a thread in `Thread::run`, with its object. -/
def runStep (s : State) (k : ℕ) (o : Os) (t : Thread) : Option State :=
  match o.pc with
  | .entry =>
      some { s with os := Function.update s.os k (some { o with pc := .identify, name := t.name }) }
  | .identify =>
      some { s with objs := Function.update s.objs k (some { t with id := some k })
                    os := Function.update s.os k (some { o with pc := .rename }) }
  | .rename =>
      some { s with objs := Function.update s.objs k (some { t with name := o.name })
                    os := Function.update s.os k
                      (some { o with pc := .notify, comm := o.name.take 15 }) }
  | .notify =>
      some { s with objs := Function.update s.objs k (some { t with tokens := t.tokens + 1 })
                    os := Function.update s.os k (some { o with pc := .callback }) }
  | .callback | .leaving =>
      if s.starting.isNone then
        some { s with os := Function.update s.os k (some { o with worked := true }) }
      else none
  | .ended => none

def step (S : Setup) (s : State) (a : Act) : Option State :=
  if s.crashed then none
  else
    match a with
    | .start =>
        if s.starting.isSome then none
        else if s.stopping then some s
        else if s.threads.isEmpty then
          some { s with stopped := false, threads := List.replicate S.count none
                        starting := some (.create 0) }
        else some s.crash
    | .create => s.starting.bind (s.startStep S)
    | .interrupt =>
        match s.starting with
        | some (.wait _ k) =>
            some { s with objs := Function.update s.objs k none, starting := none }
        | _ => none
    | .stop =>
        if s.starting.isSome then none
        else some { s with autoStop := true, stopping := true
                           stops := s.stops ++ [.flagged] }
    | .join j => (s.stops[j]?).bind (s.stopStep j)
    | .run k =>
        match s.os k with
        | none => none
        | some o =>
            if o.pc = .ended then none
            else
              match s.objs k with
              | none => some s.crash
              | some t => s.runStep k o t
    | .shouldStop k =>
        match s.os k with
        | some o =>
            if o.pc = .callback ∧ s.starting.isNone ∧ s.autoStop ∧ s.stopping then
              some { s with os := Function.update s.os k
                              (some { o with pc := .leaving, worked := true }) }
            else none
        | none => none
    | .finish k =>
        match s.os k with
        | some o =>
            if o.pc = .leaving then
              some { s with os := Function.update s.os k (some { o with pc := .ended }) }
            else none
        | none => none

end State

/-- The calls come in turn: no `start` to a scheduler that is running, no `stop` to one that is being
stopped. And no wait is interrupted. -/
def Calm (s : State) : Act → Prop
  | .start => s.stopping = true ∨ s.threads = []
  | .stop => s.stopping = false
  | .interrupt => False
  | _ => True

instance (s : State) (a : Act) : Decidable (Calm s a) :=
  match a with
  | .start => inferInstanceAs (Decidable (_ ∨ _))
  | .stop => inferInstanceAs (Decidable (_ = _))
  | .interrupt => inferInstanceAs (Decidable False)
  | .create | .join _ | .run _ | .shouldStop _ | .finish _ => inferInstanceAs (Decidable True)

/-! ### What a step can do -/

/-- A step of `Thread::run`, from a thread and its object to what they are then. -/
inductive Runs (k : ℕ) (free : Bool) (o : Os) (t : Thread) : Os → Thread → Prop
  | entry : o.pc = .entry → Runs k free o t { o with pc := .identify, name := t.name } t
  | identify : o.pc = .identify → Runs k free o t { o with pc := .rename } { t with id := some k }
  | rename : o.pc = .rename →
      Runs k free o t { o with pc := .notify, comm := o.name.take 15 } { t with name := o.name }
  | notify : o.pc = .notify →
      Runs k free o t { o with pc := .callback } { t with tokens := t.tokens + 1 }
  | work : o.pc = .callback ∨ o.pc = .leaving → free = true →
      Runs k free o t { o with worked := true } t

inductive Stepped (S : Setup) (s : State) : Act → State → Prop
  | ignored : s.stopping = true → Stepped S s .start s
  | start : s.starting = none → s.stopping = false → s.threads = [] →
      Stepped S s .start { s with stopped := false, threads := List.replicate S.count none
                                  starting := some (.create 0) }
  | twice : s.stopping = false → s.threads ≠ [] → Stepped S s .start s.crash
  | create {i : ℕ} : s.starting = some (.create i) → i < S.count →
      Stepped S s .create
        { s with objs := Function.update s.objs s.next (some { name := S.nameOf i })
                 os := Function.update s.os s.next (some {})
                 next := s.next + 1, starting := some (.wait i s.next) }
  | started {i : ℕ} : s.starting = some (.create i) → S.count ≤ i →
      Stepped S s .create { s with starting := none }
  | made {i k : ℕ} {t : Thread} : s.starting = some (.wait i k) → s.objs k = some t → 0 < t.tokens →
      Stepped S s .create
        { s with objs := Function.update s.objs k (some { t with tokens := t.tokens - 1 })
                 threads := s.threads.set i (some k), starting := some (.create (i + 1)) }
  | lost {i k : ℕ} : s.starting = some (.wait i k) → s.objs k = none → Stepped S s .create s.crash
  | interrupt {i k : ℕ} : s.starting = some (.wait i k) →
      Stepped S s .interrupt { s with objs := Function.update s.objs k none, starting := none }
  | stop : s.starting = none →
      Stepped S s .stop
        { s with autoStop := true, stopping := true, stops := s.stops ++ [.flagged] }
  | flagged {j : ℕ} : s.stops[j]? = some .flagged →
      Stepped S s (.join j) { s with stops := s.stops.set j (.joining 0 s.threads.length) }
  | joined {j n : ℕ} : s.stops[j]? = some (.joining n n) →
      Stepped S s (.join j) { s with stops := s.stops.set j .clear }
  | null {j i n : ℕ} : s.stops[j]? = some (.joining i n) → i ≠ n →
      (∀ k, s.threads[i]? = some (some k) → s.objs k = none) → Stepped S s (.join j) s.crash
  | join {j i n k : ℕ} {t : Thread} : s.stops[j]? = some (.joining i n) → i ≠ n →
      s.threads[i]? = some (some k) → s.objs k = some t →
      (t.handle = true → ∃ o, s.os k = some o ∧ o.pc = .ended) →
      Stepped S s (.join j)
        { s with objs := Function.update s.objs k (some { t with handle := false })
                 stops := s.stops.set j (.joining (i + 1) n) }
  | clear {j : ℕ} : s.stops[j]? = some .clear → s.starting = none →
      Stepped S s (.join j)
        { s with objs := fun k => if some k ∈ s.threads then none else s.objs k
                 threads := [], stopping := false, stopped := true, autoStop := false
                 stops := s.stops.eraseIdx j }
  | gone {k : ℕ} {o : Os} : s.os k = some o → o.pc ≠ .ended → s.objs k = none →
      Stepped S s (.run k) s.crash
  | run {k : ℕ} {o o' : Os} {t t' : Thread} : s.os k = some o → s.objs k = some t →
      Runs k s.starting.isNone o t o' t' →
      Stepped S s (.run k) { s with objs := Function.update s.objs k (some t')
                                    os := Function.update s.os k (some o') }
  | shouldStop {k : ℕ} {o : Os} : s.os k = some o → o.pc = .callback → s.starting = none →
      s.autoStop = true → s.stopping = true →
      Stepped S s (.shouldStop k)
        { s with os := Function.update s.os k (some { o with pc := .leaving, worked := true }) }
  | finish {k : ℕ} {o : Os} : s.os k = some o → o.pc = .leaving →
      Stepped S s (.finish k) { s with os := Function.update s.os k (some { o with pc := .ended }) }

section Inversion

variable {S : Setup} {s s' : State} {a : Act}

lemma startStep_inv {pc : StartPc} (hpc : s.starting = some pc) (h : s.startStep S pc = some s') :
    Stepped S s .create s' := by
  cases pc with
  | create i =>
    rw [State.startStep] at h
    split at h <;> cases h
    · exact .create hpc ‹_›
    · exact .started hpc (Nat.le_of_not_lt ‹_›)
  | wait i k =>
    rw [State.startStep] at h
    split at h
    · split at h <;> cases h
      exact .made hpc ‹_› ‹_›
    · cases h
      exact .lost hpc ‹_›

lemma join_inv {j i n k : ℕ} {t : Thread} (hpc : s.stops[j]? = some (.joining i n)) (hne : i ≠ n)
    (hk : s.threads[i]? = some (some k)) (hobj : s.objs k = some t)
    (h : s.join j i n k t = some s') : Stepped S s (.join j) s' := by
  unfold State.join at h
  split at h
  · split at h
    · split at h <;> cases h
      exact .join hpc hne hk hobj fun _ => ⟨_, ‹_›, ‹_›⟩
    · cases h
  · -- the handle of the object is 0 before as well
    rename_i hhandle
    cases h
    have ht : { t with handle := false } = t := by
      cases t
      simpa using hhandle
    have hjoin := Stepped.join (S := S) hpc hne hk hobj fun htrue => absurd htrue hhandle
    rwa [ht, ← hobj, Function.update_eq_self] at hjoin

lemma stopStep_inv {j : ℕ} {pc : StopPc} (hpc : s.stops[j]? = some pc)
    (h : s.stopStep j pc = some s') : Stepped S s (.join j) s' := by
  cases pc with
  | flagged =>
    cases h
    exact .flagged hpc
  | joining i n =>
    rw [State.stopStep] at h
    split at h
    · cases h
      rename_i hi
      subst hi
      exact .joined hpc
    · rename_i hne
      split at h
      · rename_i k hk
        split at h
        · exact join_inv hpc hne hk ‹_› h
        · cases h
          refine .null hpc hne fun k' hk' => ?_
          rw [hk] at hk'
          cases hk'
          assumption
      · cases h
        exact .null hpc hne fun k hk => absurd hk (by solve_by_elim)
  | clear =>
    rw [State.stopStep] at h
    split at h <;> cases h
    exact .clear hpc (Option.isNone_iff_eq_none.1 ‹_›)

lemma runStep_inv {k : ℕ} {o : Os} {t : Thread} (hos : s.os k = some o) (hobj : s.objs k = some t)
    (h : s.runStep k o t = some s') : Stepped S s (.run k) s' := by
  -- a step that leaves the object writes it as it is
  have hsame : Function.update s.objs k (some t) = s.objs := by rw [← hobj, Function.update_eq_self]
  unfold State.runStep at h
  split at h
  · rename_i hpc
    cases h
    have hrun := Stepped.run (S := S) hos hobj (.entry hpc)
    rwa [hsame] at hrun
  · cases h
    exact .run hos hobj (.identify ‹_›)
  · cases h
    exact .run hos hobj (.rename ‹_›)
  · cases h
    exact .run hos hobj (.notify ‹_›)
  · rename_i hpc
    split at h <;> cases h
    have hrun := Stepped.run (S := S) hos hobj (.work (.inl hpc) ‹_›)
    rwa [hsame] at hrun
  · rename_i hpc
    split at h <;> cases h
    have hrun := Stepped.run (S := S) hos hobj (.work (.inr hpc) ‹_›)
    rwa [hsame] at hrun
  · cases h

theorem step_inv (h : s.step S a = some s') : s.crashed = false ∧ Stepped S s a s' := by
  unfold State.step at h
  split at h
  · cases h
  · rename_i hc
    refine ⟨by simpa using hc, ?_⟩
    cases a with
    | start =>
      dsimp only at h
      split at h
      · cases h
      · rename_i hl
        split at h
        · cases h
          exact .ignored ‹_›
        · rename_i hs
          split at h <;> cases h
          · exact .start (by simpa using hl) (by simpa using hs) (List.isEmpty_iff.1 ‹_›)
          · rename_i hne
            exact .twice (by simpa using hs) (by simpa [List.isEmpty_iff] using hne)
    | create =>
      obtain ⟨pc, hpc, hs⟩ := Option.bind_eq_some_iff.1 h
      exact startStep_inv hpc hs
    | interrupt =>
      dsimp only at h
      split at h <;> cases h
      exact .interrupt ‹_›
    | stop =>
      dsimp only at h
      split at h <;> cases h
      rename_i hl
      exact .stop (by simpa using hl)
    | join j =>
      obtain ⟨pc, hpc, hs⟩ := Option.bind_eq_some_iff.1 h
      exact stopStep_inv hpc hs
    | run k =>
      dsimp only at h
      split at h
      · cases h
      · rename_i o hos
        split at h
        · cases h
        · split at h
          · cases h
            exact .gone hos ‹_› ‹_›
          · exact runStep_inv hos ‹_› h
    | shouldStop k =>
      dsimp only at h
      split at h
      · rename_i o hos
        split at h <;> cases h
        rename_i hend
        exact .shouldStop hos hend.1 (Option.isNone_iff_eq_none.1 hend.2.1) hend.2.2.1 hend.2.2.2
      · cases h
    | finish k =>
      dsimp only at h
      split at h
      · rename_i o hos
        split at h <;> cases h
        exact .finish hos ‹_›
      · cases h

end Inversion

/-! ### The invariant -/

/-- How far a thread is. -/
@[simp]
def RunPc.stage : RunPc → ℕ
  | .entry => 0
  | .identify => 1
  | .rename => 2
  | .notify => 3
  | .callback => 4
  | .leaving => 5
  | .ended => 6

/-- How many threads are made. -/
def StartPc.made : StartPc → ℕ
  | .create i => i
  | .wait i _ => i

/-- What is known of the thread `k`, the worker number `i`, and of its object. -/
structure Published (S : Setup) (i k : ℕ) (o : Os) (t : Thread) : Prop where
  name : t.name = S.nameOf i
  threadName : 1 ≤ o.pc.stage → o.name = S.nameOf i
  id : 2 ≤ o.pc.stage → t.id = some k
  comm : 3 ≤ o.pc.stage → o.comm = (S.nameOf i).take 15
  tokens : 0 < t.tokens → 4 ≤ o.pc.stage
  handle : t.handle = false → o.pc = .ended

/-- The thread `k` is the number `i` in `m_threads`, or being made to be that. -/
def State.Seat (s : State) (i k : ℕ) : Prop :=
  s.threads[i]? = some (some k) ∨ s.starting = some (.wait i k)

/-- The thread has ended. -/
def State.Ended (s : State) (k : ℕ) : Prop := ∃ o, s.os k = some o ∧ o.pc = .ended

/-- The threads and their objects. -/
structure Workers (S : Setup) (s : State) : Prop where
  complete : s.starting = none → s.threads = [] ∨ (s.threads.length = S.count ∧ none ∉ s.threads)
  building : ∀ pc, s.starting = some pc → ∃ (ks : List ℕ) (m : ℕ),
    s.threads = ks.map some ++ List.replicate m none ∧ ks.length = pc.made ∧ pc.made + m = S.count
  seated : ∀ i k, s.Seat i k → ∃ o t, s.os k = some o ∧ s.objs k = some t ∧ Published S i k o t
  made : ∀ (i k : ℕ) o, s.threads[i]? = some (some k) → s.os k = some o → 4 ≤ o.pc.stage
  making : ∀ i k, s.starting = some (.wait i k) → i < S.count ∧
    ∀ o t, s.os k = some o → s.objs k = some t →
      o.pc.stage ≤ 4 ∧ (o.pc = .callback → 0 < t.tokens)
  live : ∀ k o, s.os k = some o → o.pc ≠ .ended → ∃ i, s.Seat i k
  objs : ∀ k t, s.objs k = some t → ∃ i, s.Seat i k
  fresh : ∀ k, s.next ≤ k → s.os k = none
  worked : ∀ k o, s.os k = some o → o.worked = true → o.pc ≠ .ended → s.starting = none

/-- The calls of `stop`. -/
structure Calls (s : State) : Prop where
  sound : s.crashed = false
  apart : s.stopping = true → s.starting = none
  idle : s.stopping = false → s.stops = []
  one : s.stops.length ≤ 1
  busy : s.stops ≠ [] → s.stopping = true
  joining : ∀ i n, .joining i n ∈ s.stops → n = s.threads.length ∧ i ≤ n ∧
    ∀ i' < i, ∀ k, s.threads[i']? = some (some k) → s.Ended k
  clear : .clear ∈ s.stops → ∀ i k : ℕ, s.threads[i]? = some (some k) → s.Ended k
  stopped : s.stopped = true → s.threads = [] ∧ s.starting = none

section Threads

variable {S : Setup} {s : State} {i k : ℕ} {free : Bool} {o o' : Os} {t t' : Thread}

/-! A step of a thread. -/

lemma Runs.published (h : Runs k free o t o' t') (hp : Published S i k o t) :
    Published S i k o' t' := by
  obtain ⟨hname, hthread, hid, hcomm, htok, hhandle⟩ := hp
  cases h with
  | entry hpc =>
    simp only [hpc, RunPc.stage, nonpos_iff_eq_zero, OfNat.ofNat_ne_zero, imp_false, not_lt,
      reduceCtorEq, Bool.not_eq_false] at htok hhandle
    exact ⟨hname, fun _ => hname, by simp, by simp, by simp [htok], by simp [hhandle]⟩
  | identify hpc =>
    simp [hpc] at hthread htok hhandle
    exact ⟨hname, fun _ => hthread, fun _ => rfl, by simp, by simp [htok], by simp [hhandle]⟩
  | rename hpc =>
    simp [hpc] at hthread hid htok hhandle
    exact ⟨hthread, fun _ => hthread, fun _ => hid, fun _ => by rw [← hthread], by simp [htok],
      by simp [hhandle]⟩
  | notify hpc =>
    simp [hpc] at hthread hid hcomm hhandle
    exact ⟨hname, fun _ => hthread, fun _ => hid, fun _ => hcomm, by simp, by simp [hhandle]⟩
  | work hpc _ => exact ⟨hname, hthread, hid, hcomm, htok, hhandle⟩

lemma Runs.stage (h : Runs k free o t o' t') : o.pc.stage ≤ o'.pc.stage ∧ o'.pc ≠ .ended ∧
    o.pc ≠ .ended ∧ (o'.worked = true → o.worked = true ∨ free = true) := by
  cases h with
  | work hpc hfree =>
    refine ⟨le_refl _, ?_, ?_, fun _ => .inr hfree⟩ <;> rcases hpc with hpc | hpc <;> simp [hpc]
  | _ hpc => exact ⟨by simp [hpc, RunPc.stage], by simp, by simp [hpc], .inl⟩

lemma Runs.rise (h : Runs k free o t o' t') (hlt : o.pc.stage < 4) :
    o'.pc.stage = o.pc.stage + 1 := by
  cases h with
  | work hpc _ => rcases hpc with hpc | hpc <;> simp [hpc] at hlt
  | _ hpc => simp [hpc]

/-- A step that changes a thread and its object and leaves the rest. -/
lemma Workers.update (h : Workers S s) (hos : s.os k = some o) (hobj : s.objs k = some t)
    (o' : Os) (t' : Thread)
    (hpub : ∀ i, Published S i k o t → Published S i k o' t')
    (hstage : o.pc.stage ≤ o'.pc.stage)
    (hmake : ∀ i, s.starting = some (.wait i k) →
      o'.pc.stage ≤ 4 ∧ (o'.pc = .callback → 0 < t'.tokens))
    (hwork : o'.worked = true → o'.pc ≠ .ended → s.starting = none) :
    Workers S { s with objs := Function.update s.objs k (some t')
                       os := Function.update s.os k (some o') } where
  complete := h.complete
  building := h.building
  seated i' k' hs := by
    obtain ⟨o₁, t₁, ho₁, ht₁, hp₁⟩ := h.seated i' k' hs
    by_cases hk : k' = k
    · subst hk
      rw [hos] at ho₁
      rw [hobj] at ht₁
      cases ho₁
      cases ht₁
      exact ⟨o', t', Function.update_self .., Function.update_self .., hpub i' hp₁⟩
    · exact ⟨o₁, t₁, by simpa [hk] using ho₁, by simpa [hk] using ht₁, hp₁⟩
  made i' k' o₁ hs ho₁ := by
    by_cases hk : k' = k
    · subst hk
      obtain rfl : o' = o₁ := by simpa using ho₁
      exact le_trans (h.made i' k' o hs hos) hstage
    · exact h.made i' k' o₁ hs (by simpa [hk] using ho₁)
  making i' k' hs := by
    obtain ⟨hi, hk'⟩ := h.making i' k' hs
    refine ⟨hi, fun o₁ t₁ ho₁ ht₁ => ?_⟩
    by_cases hk : k' = k
    · subst hk
      obtain rfl : o' = o₁ := by simpa using ho₁
      obtain rfl : t' = t₁ := by simpa using ht₁
      exact hmake i' hs
    · exact hk' o₁ t₁ (by simpa [hk] using ho₁) (by simpa [hk] using ht₁)
  live k' o₁ ho₁ hne := by
    by_cases hk : k' = k
    · subst hk
      exact h.objs k' t hobj
    · exact h.live k' o₁ (by simpa [hk] using ho₁) hne
  objs k' t₁ ht₁ := by
    by_cases hk : k' = k
    · subst hk
      exact h.objs k' t hobj
    · exact h.objs k' t₁ (by simpa [hk] using ht₁)
  fresh k' hk' := by
    have hne : k' ≠ k := by
      rintro rfl
      rw [h.fresh k' hk'] at hos
      cases hos
    simpa [hne] using h.fresh k' hk'
  worked k' o₁ ho₁ hw hne := by
    by_cases hk : k' = k
    · subst hk
      obtain rfl : o' = o₁ := by simpa using ho₁
      exact hwork hw hne
    · exact h.worked k' o₁ (by simpa [hk] using ho₁) hw hne

lemma Workers.object (h : Workers S s) (hos : s.os k = some o) (hobj : s.objs k = some t)
    (t' : Thread)
    (hpub : ∀ i, Published S i k o t → Published S i k o t')
    (hmake : ∀ i, s.starting ≠ some (.wait i k)) :
    Workers S { s with objs := Function.update s.objs k (some t') } := by
  have hupd := h.update hos hobj o t' hpub le_rfl (fun i hi => absurd hi (hmake i)) (h.worked k o hos)
  rwa [← hos, Function.update_eq_self] at hupd

end Threads

/-! ### The threads, call by call -/

section Workers

variable {S : Setup} {s : State} {i k : ℕ} {t : Thread}

lemma Workers.init (S : Setup) : Workers S {} where
  complete _ := .inl rfl
  building pc h := by cases h
  seated i k h := by simp [State.Seat] at h
  made i k o h := by simp at h
  making i k h := by cases h
  live k o h := by cases h
  objs k t h := by cases h
  fresh k _ := rfl
  worked k o h := by cases h

lemma Workers.flags (h : Workers S s) (stopped stopping autoStop : Bool) (stops : List StopPc) :
    Workers S { s with stopped := stopped, stopping := stopping, autoStop := autoStop
                       stops := stops } :=
  ⟨h.complete, h.building, h.seated, h.made, h.making, h.live, h.objs, h.fresh, h.worked⟩

lemma Workers.empty (h : Workers S s) (hl : s.starting = none) (ht : s.threads = []) :
    (∀ k, s.objs k = none) ∧ ∀ k o, s.os k = some o → o.pc = .ended := by
  have hseat : ∀ i k, ¬ s.Seat i k := by
    intro i k hs
    simp [State.Seat, hl, ht] at hs
  constructor
  · intro k
    by_contra hne
    obtain ⟨t, hobj⟩ := Option.ne_none_iff_exists'.1 hne
    obtain ⟨i, hi⟩ := h.objs k t hobj
    exact hseat i k hi
  · intro k o ho
    by_contra hne
    obtain ⟨i, hi⟩ := h.live k o ho hne
    exact hseat i k hi

lemma Workers.start (h : Workers S s) (hl : s.starting = none) (ht : s.threads = []) :
    Workers S { s with stopped := false, threads := List.replicate S.count none
                       starting := some (.create 0) } := by
  obtain ⟨hobjs, hos⟩ := h.empty hl ht
  -- nobody has a seat in the new vector
  have hnull : ∀ i k : ℕ, (List.replicate S.count (none : Option ℕ))[i]? ≠ some (some k) := by
    intro i k hi
    rw [List.getElem?_replicate] at hi
    split at hi <;> cases hi
  exact {
    complete := fun hc => by cases hc
    building := fun pc hpc => by
      cases hpc
      exact ⟨[], S.count, rfl, rfl, Nat.zero_add _⟩
    seated := fun i k hs => by
      obtain hs | hs := hs
      · exact absurd hs (hnull i k)
      · cases hs
    made := fun i k o hi => absurd hi (hnull i k)
    making := fun i k hi => by cases hi
    live := fun k o ho hne => absurd (hos k o ho) hne
    objs := fun k t hobj => absurd ((hobjs k).symm.trans hobj) (by simp)
    fresh := h.fresh
    worked := fun k o ho _ hne => absurd (hos k o ho) hne }

lemma Workers.create (h : Workers S s) (hpc : s.starting = some (.create i)) (hi : i < S.count) :
    Workers S { s with objs := Function.update s.objs s.next (some { name := S.nameOf i })
                       os := Function.update s.os s.next (some {})
                       next := s.next + 1, starting := some (.wait i s.next) } := by
  -- the seats that there are belong to threads that there are
  have hold : ∀ i k : ℕ, s.threads[i]? = some (some k) → k ≠ s.next := by
    rintro i k hs rfl
    obtain ⟨o, t, ho, -⟩ := h.seated i s.next (.inl hs)
    rw [h.fresh s.next le_rfl] at ho
    cases ho
  have hseat : ∀ {i k}, s.Seat i k → s.threads[i]? = some (some k) := fun hs =>
    hs.resolve_right fun hw => by rw [hpc] at hw; cases hw
  exact {
    complete := fun hc => by cases hc
    building := fun pc' hpc' => by
      cases hpc'
      exact h.building (.create i) hpc
    seated := fun i' k hs => by
      obtain hs | hs := hs
      · have hk := hold i' k hs
        simpa [hk] using h.seated i' k (.inl hs)
      · cases hs
        exact ⟨{}, { name := S.nameOf i }, Function.update_self .., Function.update_self ..,
          rfl, by simp, by simp, by simp, by simp, by simp⟩
    made := fun i' k o hs ho => by
      have hk := hold i' k hs
      exact h.made i' k o hs (by simpa [hk] using ho)
    making := fun i' k hs => by
      cases hs
      refine ⟨hi, fun o t ho _ => ?_⟩
      obtain rfl : {} = o := by simpa using ho
      simp
    live := fun k o ho hne => by
      by_cases hk : k = s.next
      · subst hk
        exact ⟨i, .inr rfl⟩
      · obtain ⟨i', hs⟩ := h.live k o (by simpa [hk] using ho) hne
        exact ⟨i', .inl (hseat hs)⟩
    objs := fun k t hobj => by
      by_cases hk : k = s.next
      · subst hk
        exact ⟨i, .inr rfl⟩
      · obtain ⟨i', hs⟩ := h.objs k t (by simpa [hk] using hobj)
        exact ⟨i', .inl (hseat hs)⟩
    fresh := fun k hk => by
      have hle : s.next + 1 ≤ k := hk
      have hne : k ≠ s.next := by omega
      simpa [hne] using h.fresh k (by omega)
    worked := fun k o ho hw hne => by
      by_cases hk : k = s.next
      · subst hk
        obtain rfl : {} = o := by simpa using ho
        cases hw
      · -- a worker has not worked before `start` is through
        have hnone := h.worked k o (by simpa [hk] using ho) hw hne
        rw [hpc] at hnone
        cases hnone }

lemma Workers.started (h : Workers S s) (hpc : s.starting = some (.create i)) (hi : S.count ≤ i) :
    Workers S { s with starting := none } := by
  have hseat : ∀ {i k}, s.Seat i k → s.threads[i]? = some (some k) := fun hs =>
    hs.resolve_right fun hw => by rw [hpc] at hw; cases hw
  exact {
    complete := fun _ => by
      obtain ⟨ks, m, hthreads, hlen, hm⟩ := h.building _ hpc
      simp only [StartPc.made] at hlen hm
      obtain rfl : m = 0 := by omega
      exact .inr ⟨by simp [hthreads]; omega, by simp [hthreads]⟩
    building := fun pc' hpc' => by cases hpc'
    seated := fun i' k hs => h.seated i' k (.inl (hs.resolve_right fun hw => by cases hw))
    made := h.made
    making := fun i' k hs => by cases hs
    live := fun k o ho hne => by
      obtain ⟨i', hs⟩ := h.live k o ho hne
      exact ⟨i', .inl (hseat hs)⟩
    objs := fun k t hobj => by
      obtain ⟨i', hs⟩ := h.objs k t hobj
      exact ⟨i', .inl (hseat hs)⟩
    fresh := h.fresh
    worked := fun _ _ _ _ _ => rfl }

/-- The constructor has its token, so the thread is through with what it publishes. -/
lemma Workers.seat (h : Workers S s) (hpc : s.starting = some (.wait i k)) (hobj : s.objs k = some t)
    (htok : 0 < t.tokens) :
    Workers S { s with threads := s.threads.set i (some k), starting := some (.create (i + 1)) } := by
  obtain ⟨o, t₁, ho, ht₁, hp⟩ := h.seated i k (.inr hpc)
  obtain rfl : t = t₁ := Option.some.inj (hobj.symm.trans ht₁)
  obtain ⟨hi, -⟩ := h.making i k hpc
  obtain ⟨ks, m, hthreads, hlen, hm⟩ := h.building _ hpc
  simp only [StartPc.made] at hlen hm
  have hset : s.threads.set i (some k) = (ks ++ [k]).map some ++ List.replicate (m - 1) none := by
    obtain ⟨m, rfl⟩ : ∃ m', m = m' + 1 := ⟨m - 1, by omega⟩
    simp [hthreads, ← hlen, List.replicate_succ]
  have hlt : i < s.threads.length := by simp [hthreads]; omega
  -- a seat in the new vector was one before
  have hnew : ∀ i' k', (s.threads.set i (some k))[i']? = some (some k') → s.Seat i' k' := by
    intro i' k' hs
    rw [List.getElem?_set] at hs
    split at hs
    · rename_i heq
      subst heq
      cases hs
      exact .inr hpc
    · exact .inl hs
  -- and the other way round: the seat that is written was free
  have hkeep : ∀ i' k', s.Seat i' k' → (s.threads.set i (some k))[i']? = some (some k') := by
    rintro i' k' (hs | hs)
    · have hne : i ≠ i' := by
        rintro rfl
        rw [hthreads, List.getElem?_append_right (by simp [hlen]), List.getElem?_replicate] at hs
        split at hs <;> cases hs
      rwa [List.getElem?_set_ne hne]
    · rw [hpc] at hs
      cases hs
      exact List.getElem?_set_self hlt
  exact {
    complete := fun hc => by cases hc
    building := fun pc' hpc' => by
      cases hpc'
      exact ⟨ks ++ [k], m - 1, hset, by simp [hlen, StartPc.made], by simp [StartPc.made]; omega⟩
    seated := fun i' k' hs => h.seated i' k' (hnew i' k' (hs.resolve_right fun hw => by cases hw))
    made := fun i' k' o' hs ho' => by
      obtain hs | hs := hnew i' k' hs
      · exact h.made i' k' o' hs ho'
      · rw [hpc] at hs
        cases hs
        rw [ho] at ho'
        cases ho'
        exact hp.tokens htok
    making := fun i' k' hs => by cases hs
    live := fun k' o' ho' hne => by
      obtain ⟨i', hs⟩ := h.live k' o' ho' hne
      exact ⟨i', .inl (hkeep i' k' hs)⟩
    objs := fun k' t' hobj' => by
      obtain ⟨i', hs⟩ := h.objs k' t' hobj'
      exact ⟨i', .inl (hkeep i' k' hs)⟩
    fresh := h.fresh
    worked := fun k' o' ho' hw hne => by
      have hnone := h.worked k' o' ho' hw hne
      rw [hpc] at hnone
      cases hnone }

lemma Workers.clear (h : Workers S s) (hl : s.starting = none)
    (hend : ∀ i k : ℕ, s.threads[i]? = some (some k) → s.Ended k) :
    Workers S { s with objs := fun k => if some k ∈ s.threads then none else s.objs k
                       threads := [] } := by
  have hseat : ∀ {i k}, s.Seat i k → s.threads[i]? = some (some k) := fun hs =>
    hs.resolve_right fun hw => by rw [hl] at hw; cases hw
  have hdone : ∀ k o, s.os k = some o → o.pc = .ended := by
    intro k o ho
    by_contra hne
    obtain ⟨i, hs⟩ := h.live k o ho hne
    obtain ⟨o₁, ho₁, hpc⟩ := hend i k (hseat hs)
    rw [ho] at ho₁
    cases ho₁
    exact hne hpc
  exact {
    complete := fun _ => .inl rfl
    building := fun pc hpc => by
      rw [hl] at hpc
      cases hpc
    seated := fun i k hs => by simp [State.Seat, hl] at hs
    made := fun i k o hs => by simp at hs
    making := fun i k hs => by
      rw [hl] at hs
      cases hs
    live := fun k o ho hne => absurd (hdone k o ho) hne
    objs := fun k t hobj => by
      simp only [Option.ite_none_left_eq_some] at hobj
      obtain ⟨i, hs⟩ := h.objs k t hobj.2
      exact absurd (List.mem_of_getElem? (hseat hs)) hobj.1
    fresh := h.fresh
    worked := fun k o ho _ hne => absurd (hdone k o ho) hne }

end Workers

/-! ### The calls -/

section Calls

variable {s : State} {j k : ℕ} {o o' : Os} {pc pc' : StopPc}

lemma Calls.stops_eq (h : Calls s) (hj : s.stops[j]? = some pc) : s.stops = [pc] ∧ j = 0 := by
  have hone := h.one
  match hs : s.stops with
  | [] => simp [hs] at hj
  | [pc₁] =>
    rw [hs] at hj
    obtain ⟨hlt, heq⟩ := List.getElem?_eq_some_iff.1 hj
    obtain rfl : j = 0 := by simpa using hlt
    exact ⟨by rw [← heq]; rfl, rfl⟩
  | _ :: _ :: _ => simp [hs] at hone

lemma Calls.unlocked (h : Calls s) (hj : s.stops[j]? = some pc) : s.starting = none :=
  h.apart (h.busy (by rw [(h.stops_eq hj).1]; simp))

lemma Calls.of_idle (hc : s.crashed = false) (hs : s.stopping = false) (hnil : s.stops = [])
    (hstopped : s.stopped = true → s.threads = [] ∧ s.starting = none) : Calls s where
  sound := hc
  apart h := by
    rw [hs] at h
    cases h
  idle _ := hnil
  one := by simp [hnil]
  busy h := absurd hnil h
  joining i n h := by simp [hnil] at h
  clear h := by simp [hnil] at h
  stopped := hstopped

lemma Calls.alone (h : Calls s) {pc : StartPc} (hpc : s.starting = some pc) :
    s.stopping = false ∧ s.stops = [] ∧ s.stopped = false := by
  have hne : s.starting ≠ none := by simp [hpc]
  have hs : s.stopping = false := by
    by_contra hs
    exact hne (h.apart (by simpa using hs))
  refine ⟨hs, h.idle hs, ?_⟩
  by_contra hst
  exact hne (h.stopped (by simpa using hst)).2

lemma Calls.advance (h : Calls s) (hj : s.stops[j]? = some pc)
    (hjoin : ∀ i n, pc' = .joining i n → n = s.threads.length ∧ i ≤ n ∧
      ∀ i' < i, ∀ k, s.threads[i']? = some (some k) → s.Ended k)
    (hclear : pc' = .clear → ∀ i k : ℕ, s.threads[i]? = some (some k) → s.Ended k)
    (objs : ℕ → Option Thread) :
    Calls { s with objs := objs, stops := s.stops.set j pc' } := by
  obtain ⟨hs, rfl⟩ := h.stops_eq hj
  have hbusy : s.stopping = true := h.busy (by simp [hs])
  exact {
    sound := h.sound
    apart := h.apart
    idle := fun hf => by
      rw [hbusy] at hf
      cases hf
    one := by simp [hs]
    busy := fun _ => hbusy
    joining := fun i n hi => hjoin i n (by simpa [hs, eq_comm] using hi)
    clear := fun hc => hclear (by simpa [hs, eq_comm] using hc)
    stopped := h.stopped }

lemma Calls.update (h : Calls s) (hos : s.os k = some o) (hend : o.pc = .ended → o'.pc = .ended)
    (objs : ℕ → Option Thread) :
    Calls { s with objs := objs, os := Function.update s.os k (some o') } := by
  have hkeep : ∀ k', s.Ended k' →
      State.Ended { s with objs := objs, os := Function.update s.os k (some o') } k' := by
    rintro k' ⟨o₁, ho₁, hpc⟩
    by_cases hk : k' = k
    · subst hk
      rw [hos] at ho₁
      cases ho₁
      exact ⟨o', Function.update_self .., hend hpc⟩
    · exact ⟨o₁, by simpa [hk] using ho₁, hpc⟩
  exact {
    sound := h.sound
    apart := h.apart
    idle := h.idle
    one := h.one
    busy := h.busy
    joining := fun i n hi => by
      obtain ⟨hn, hle, hall⟩ := h.joining i n hi
      exact ⟨hn, hle, fun i' hi' k' hk' => hkeep k' (hall i' hi' k' hk')⟩
    clear := fun hc i k' hk' => hkeep k' (h.clear hc i k' hk')
    stopped := h.stopped }

end Calls

/-! ### Every step -/

structure Inv (S : Setup) (s : State) : Prop where
  workers : Workers S s
  calls : Calls s

section Step

variable {S : Setup} {s s' : State} {a : Act} {j i n k : ℕ} {t : Thread}

lemma Inv.init (S : Setup) : Inv S {} :=
  ⟨Workers.init S, Calls.of_idle rfl rfl rfl fun _ => ⟨rfl, rfl⟩⟩

lemma Inv.seat_of_joining (h : Inv S s) (hj : s.stops[j]? = some (.joining i n)) (hne : i ≠ n) :
    ∃ k o t, s.threads[i]? = some (some k) ∧ s.os k = some o ∧ s.objs k = some t ∧
      Published S i k o t := by
  have hmem := List.mem_of_getElem? hj
  obtain ⟨rfl, hle, -⟩ := h.calls.joining i n hmem
  have hlt : i < s.threads.length := by omega
  obtain hnil | ⟨-, hnone⟩ := h.workers.complete (h.calls.unlocked hj)
  · simp [hnil] at hlt
  · cases hk : s.threads[i] with
    | none => exact absurd (hk ▸ List.getElem_mem hlt) hnone
    | some k =>
      have hseat : s.threads[i]? = some (some k) := by rw [List.getElem?_eq_getElem hlt, hk]
      obtain ⟨o, t, ho, ht, hp⟩ := h.workers.seated i k (.inl hseat)
      exact ⟨k, o, t, hseat, ho, ht, hp⟩

lemma Inv.join (h : Inv S s) (hj : s.stops[j]? = some (.joining i n)) (hne : i ≠ n)
    (hk : s.threads[i]? = some (some k)) (hobj : s.objs k = some t)
    (hend : t.handle = true → ∃ o, s.os k = some o ∧ o.pc = .ended) :
    Inv S { s with objs := Function.update s.objs k (some { t with handle := false })
                   stops := s.stops.set j (.joining (i + 1) n) } := by
  obtain ⟨o, t₁, ho, ht₁, hp⟩ := h.workers.seated i k (.inl hk)
  obtain rfl : t = t₁ := Option.some.inj (hobj.symm.trans ht₁)
  have hended : o.pc = .ended := by
    cases hh : t.handle with
    | false => exact hp.handle hh
    | true =>
      obtain ⟨o₁, ho₁, hpc⟩ := hend hh
      rw [ho] at ho₁
      cases ho₁
      exact hpc
  obtain ⟨hn, hle, hall⟩ := h.calls.joining i n (List.mem_of_getElem? hj)
  have hfree := h.calls.unlocked hj
  have hworkers := h.workers.object ho hobj { t with handle := false }
    (fun i' hp' => { hp' with handle := fun _ => hended }) fun i' => by simp [hfree]
  refine ⟨hworkers.flags .., h.calls.advance hj ?_ ?_ _⟩
  · rintro i₁ n₁ heq
    cases heq
    refine ⟨hn, by omega, fun i' hi' k' hk' => ?_⟩
    by_cases hi : i' = i
    · subst hi
      rw [hk] at hk'
      cases hk'
      exact ⟨o, ho, hended⟩
    · exact hall i' (by omega) k' hk'
  · intro heq
    cases heq

lemma Inv.made (h : Inv S s) (hpc : s.starting = some (.wait i k)) (hobj : s.objs k = some t)
    (htok : 0 < t.tokens) :
    Inv S { s with objs := Function.update s.objs k (some { t with tokens := t.tokens - 1 })
                   threads := s.threads.set i (some k), starting := some (.create (i + 1)) } := by
  obtain ⟨o, t₁, ho, ht₁, hp⟩ := h.workers.seated i k (.inr hpc)
  obtain rfl : t = t₁ := Option.some.inj (hobj.symm.trans ht₁)
  obtain ⟨hs, hstops, hst⟩ := h.calls.alone hpc
  refine ⟨(h.workers.seat hpc hobj htok).object ho hobj _ (fun i' hp' => ?_) (fun i' => by simp),
    Calls.of_idle h.calls.sound hs hstops fun hf => ?_⟩
  · exact { hp' with tokens := fun _ => hp.tokens htok }
  · rw [show s.stopped = true from hf] at hst
    cases hst

lemma Inv.run {o o' : Os} {t' : Thread} (h : Inv S s) (ho : s.os k = some o)
    (hobj : s.objs k = some t) (hr : Runs k s.starting.isNone o t o' t') :
    Inv S { s with objs := Function.update s.objs k (some t')
                   os := Function.update s.os k (some o') } := by
  obtain ⟨hstage, hne', hne, hwork⟩ := hr.stage
  refine ⟨h.workers.update ho hobj o' t' (fun i hp => hr.published hp) hstage ?_ ?_,
    h.calls.update ho (fun he => absurd he hne) _⟩
  · intro i hi
    cases hr with
    | notify _ => exact ⟨le_rfl, fun _ => Nat.succ_pos _⟩
    | work _ hfree => simp [hi] at hfree
    | _ => simp
  · intro hw _
    obtain hw | hfree := hwork hw
    · exact h.workers.worked k o ho hw hne
    · exact Option.isNone_iff_eq_none.1 hfree

/-- A worker that gets on in its callback, behind what it publishes. -/
lemma Inv.leave {o o' : Os} (h : Inv S s) (ho : s.os k = some o) (hlt : o.pc.stage < o'.pc.stage)
    (hstage : 4 ≤ o.pc.stage) (hname : o'.name = o.name) (hcomm : o'.comm = o.comm)
    (hmake : ∀ i, s.starting ≠ some (.wait i k))
    (hwork : o'.worked = true → o'.pc ≠ .ended → s.starting = none) :
    Inv S { s with os := Function.update s.os k (some o') } := by
  have hne : o.pc ≠ .ended := by
    intro hpc
    cases hpc' : o'.pc <;> simp [hpc, hpc'] at hlt
  obtain ⟨i, hs⟩ := h.workers.live k o ho hne
  obtain ⟨o₁, t, ho₁, hobj, -⟩ := h.workers.seated i k hs
  refine ⟨?_, h.calls.update ho (fun hpc => absurd hpc hne) s.objs⟩
  have hupd := h.workers.update ho hobj o' t
    (fun i hp => { hp with
      threadName := fun _ => hname.trans (hp.threadName (by omega))
      id := fun _ => hp.id (by omega)
      comm := fun _ => hcomm.trans (hp.comm (by omega))
      tokens := fun _ => by omega
      handle := fun hh => absurd (hp.handle hh) hne })
    hlt.le (fun i hi => absurd hi (hmake i)) hwork
  rwa [← hobj, Function.update_eq_self] at hupd

/-- Only a worker that has been made has had the answer of `shouldStop()`. -/
lemma Inv.not_making {o : Os} (h : Inv S s) (ho : s.os k = some o) (hpc : o.pc = .leaving) (i : ℕ) :
    s.starting ≠ some (.wait i k) := by
  intro hi
  obtain ⟨o₁, t, ho₁, hobj, -⟩ := h.workers.seated i k (.inr hi)
  have hle := ((h.workers.making i k hi).2 o t ho hobj).1
  simp [hpc] at hle

theorem Inv.step (h : Inv S s) (hcalm : Calm s a) (hstep : s.step S a = some s') : Inv S s' := by
  obtain ⟨hsound, hst⟩ := step_inv hstep
  cases hst with
  | ignored _ => exact h
  | start hl hs ht =>
    exact ⟨h.workers.start hl ht, Calls.of_idle hsound hs (h.calls.idle hs) fun hf => by cases hf⟩
  | twice hs ht =>
    obtain hs' | ht' := hcalm
    · rw [hs] at hs'
      cases hs'
    · exact absurd ht' ht
  | create hpc hi =>
    obtain ⟨hs, hstops, hst⟩ := h.calls.alone hpc
    exact ⟨h.workers.create hpc hi, Calls.of_idle hsound hs hstops fun hf => by simp [hst] at hf⟩
  | started hpc hi =>
    obtain ⟨hs, hstops, hst⟩ := h.calls.alone hpc
    exact ⟨h.workers.started hpc hi, Calls.of_idle hsound hs hstops fun hf => by simp [hst] at hf⟩
  | made hpc hobj htok => exact h.made hpc hobj htok
  | lost hpc hobj =>
    obtain ⟨o, t, -, ht, -⟩ := h.workers.seated _ _ (.inr hpc)
    rw [hobj] at ht
    cases ht
  | interrupt _ => exact hcalm.elim
  | stop hl =>
    have hnil := h.calls.idle hcalm
    refine ⟨h.workers.flags .., ⟨hsound, fun _ => hl, (fun hf => by cases hf), by simp [hnil],
      fun _ => rfl, fun i n hi => ?_, fun hc => ?_, h.calls.stopped⟩⟩
    · simp [hnil] at hi
    · simp [hnil] at hc
  | flagged hj =>
    refine ⟨h.workers.flags .., h.calls.advance hj (fun i n heq => ?_) (fun heq => by cases heq) _⟩
    cases heq
    exact ⟨rfl, Nat.zero_le _, fun i' hi' => absurd hi' (Nat.not_lt_zero _)⟩
  | joined hj =>
    obtain ⟨rfl, -, hall⟩ := h.calls.joining _ _ (List.mem_of_getElem? hj)
    refine ⟨h.workers.flags .., h.calls.advance hj (fun i n heq => by cases heq) ?_ _⟩
    exact fun _ i k hk => hall i (List.getElem?_eq_some_iff.1 hk).1 k hk
  | null hj hne hnull =>
    obtain ⟨k, o, t, hk, -, hobj, -⟩ := h.seat_of_joining hj hne
    rw [hnull k hk] at hobj
    cases hobj
  | join hj hne hk hobj hend => exact h.join hj hne hk hobj hend
  | clear hj hl =>
    obtain ⟨hstops, rfl⟩ := h.calls.stops_eq hj
    have hend := h.calls.clear (List.mem_of_getElem? hj)
    exact ⟨(h.workers.clear hl hend).flags ..,
      Calls.of_idle hsound rfl (by simp [hstops]) fun _ => ⟨rfl, hl⟩⟩
  | gone ho hne hobj =>
    obtain ⟨i, hs⟩ := h.workers.live _ _ ho hne
    obtain ⟨o, t, -, ht, -⟩ := h.workers.seated _ _ hs
    rw [hobj] at ht
    cases ht
  | run ho hobj hr => exact h.run ho hobj hr
  | shouldStop ho hpc hfree _ _ =>
    exact h.leave ho (by simp [hpc]) (by simp [hpc]) rfl rfl (fun i => by simp [hfree])
      fun _ _ => hfree
  | finish ho hpc =>
    exact h.leave ho (by simp [hpc]) (by simp [hpc]) rfl rfl (h.not_making ho hpc)
      fun _ hne => absurd rfl hne

end Step

/-! ### The calls end -/

/-- The steps of the calls under way and of the threads, without new calls and without new answers
of `shouldStop()`. -/
def Inner (_ : State) : Act → Prop
  | .start | .stop | .interrupt | .shouldStop _ => False
  | _ => True

/-- `shouldStop()` has answered true to every worker that has not ended. -/
def State.Leaving (s : State) : Prop := ∀ k o, s.os k = some o → o.pc = .leaving ∨ o.pc = .ended

section Progress

variable {S : Setup} {s s' : State} {i k n : ℕ}

lemma Inner.calm {s : State} {a : Act} (h : Inner s a) : Calm s a := by
  cases a with
  | start | stop | interrupt | shouldStop => exact h.elim
  | _ => trivial

lemma Inv.reach (h : Inv S s) (hr : Reach (State.step S) Inner s s') : Inv S s' :=
  hr.inv h fun _ h hg hs => h.step hg.calm hs

lemma reach_of_step {a : Act} (hs : s.step S a = some s') (ha : Inner s a) :
    Reach (State.step S) Inner s s' :=
  Reach.refl.tail ha hs

lemma Inv.progress {P : State → Prop} {a : Act} (h : Inv S s) (hs : s.step S a = some s')
    (ha : Inner s a) (hrest : Inv S s' → ∃ s₁, Reach (State.step S) Inner s' s₁ ∧ P s₁) :
    ∃ s₁, Reach (State.step S) Inner s s₁ ∧ P s₁ := by
  obtain ⟨s₁, hr, hp⟩ := hrest (h.step ha.calm hs)
  exact ⟨s₁, (reach_of_step hs ha).trans hr, hp⟩

/-- A thread that is not at its callback yet gets on, with the mutex or without. -/
lemma Inv.run_enabled {o : Os} {t : Thread} (h : Inv S s) (ho : s.os k = some o)
    (hobj : s.objs k = some t) (hlt : o.pc.stage < 4) :
    ∃ o' t', o'.pc.stage = o.pc.stage + 1 ∧
      s.step S (.run k) = some { s with objs := Function.update s.objs k (some t')
                                        os := Function.update s.os k (some o') } := by
  have hsome : ∃ s', s.step S (.run k) = some s' := by
    cases hpc : o.pc with
    | callback | leaving | ended => simp [hpc] at hlt
    | _ => simp [State.step, State.runStep, h.calls.sound, ho, hobj, hpc]
  obtain ⟨s', hs⟩ := hsome
  obtain ⟨-, hst⟩ := step_inv hs
  cases hst with
  | gone _ _ hnone =>
    rw [hnone] at hobj
    cases hobj
  | run ho₁ hobj₁ hr =>
    rw [ho] at ho₁
    cases ho₁
    exact ⟨_, _, hr.rise hlt, hs⟩

/-- The thread whose constructor waits publishes what it has to, and the constructor returns. -/
lemma Inv.wait_ends (h : Inv S s) (hpc : s.starting = some (.wait i k)) :
    ∃ s', Reach (State.step S) Inner s s' ∧ s'.starting = some (.create (i + 1)) ∧
      s'.stops = s.stops := by
  obtain ⟨o, t, ho, hobj, -⟩ := h.workers.seated i k (.inr hpc)
  -- the induction is on what the thread has still to do
  induction hm : 4 - o.pc.stage generalizing s o t with
  | zero =>
    obtain ⟨hle, htok⟩ := (h.workers.making i k hpc).2 o t ho hobj
    have hcb : o.pc = .callback := by
      cases hp : o.pc <;> simp [hp] at hm hle ⊢
    have hs : s.step S .create = some
        { s with objs := Function.update s.objs k (some { t with tokens := t.tokens - 1 })
                 threads := s.threads.set i (some k), starting := some (.create (i + 1)) } := by
      simp [State.step, h.calls.sound, hpc, State.startStep, hobj, htok hcb]
    exact ⟨_, reach_of_step hs trivial, rfl, rfl⟩
  | succ m ih =>
    obtain ⟨o', t', hstage, hs⟩ := h.run_enabled ho hobj (by omega)
    refine h.progress hs trivial fun h' => ?_
    exact ih h' hpc o' t' (Function.update_self ..) (Function.update_self ..) (by omega)

lemma Inv.create_ends (h : Inv S s) (hpc : s.starting = some (.create i)) :
    ∃ s', Reach (State.step S) Inner s s' ∧ s'.starting = none ∧ s'.stops = s.stops := by
  induction hm : S.count - i generalizing s i with
  | zero =>
    have hs : s.step S .create = some { s with starting := none } := by
      simp [State.step, h.calls.sound, hpc, State.startStep]
      omega
    exact ⟨_, reach_of_step hs trivial, rfl, rfl⟩
  | succ m ih =>
    have hs : s.step S .create = some
        { s with objs := Function.update s.objs s.next (some { name := S.nameOf i })
                 os := Function.update s.os s.next (some {})
                 next := s.next + 1, starting := some (.wait i s.next) } := by
      have hlt : i < S.count := by omega
      simp [State.step, h.calls.sound, hpc, State.startStep, hlt]
    refine h.progress hs trivial fun h₁ => ?_
    obtain ⟨s₂, hr₂, hpc₂, hstops₂⟩ := h₁.wait_ends rfl
    obtain ⟨s₃, hr₃, hnone, hstops₃⟩ := ih (h₁.reach hr₂) hpc₂ (by omega)
    exact ⟨s₃, hr₂.trans hr₃, hnone, hstops₃.trans hstops₂⟩

lemma Inv.start_ends (h : Inv S s) :
    ∃ s', Reach (State.step S) Inner s s' ∧ s'.starting = none ∧ s'.stops = s.stops := by
  match hpc : s.starting with
  | none => exact ⟨s, .refl, hpc, rfl⟩
  | some (.create i) => exact h.create_ends hpc
  | some (.wait i k) =>
    obtain ⟨s₁, hr₁, hpc₁, hstops₁⟩ := h.wait_ends hpc
    obtain ⟨s₂, hr₂, hnone, hstops₂⟩ := (h.reach hr₁).create_ends hpc₁
    exact ⟨s₂, hr₁.trans hr₂, hnone, hstops₂.trans hstops₁⟩

lemma State.Leaving.finish (h : s.Leaving) (k : ℕ) (o : Os) :
    State.Leaving { s with os := Function.update s.os k (some { o with pc := .ended }) } := by
  intro k' o' ho'
  by_cases hk : k' = k
  · subst hk
    obtain rfl : { o with pc := .ended } = o' := by simpa using ho'
    exact .inr rfl
  · exact h k' o' (by simpa [hk] using ho')

/-- `stop` gets past an element: its thread ends, and is joined. -/
lemma Inv.join_ends (h : Inv S s) (hleave : s.Leaving) (hstops : s.stops = [.joining i n])
    (hne : i ≠ n) : ∃ s', Reach (State.step S) Inner s s' ∧ s'.stops = [.joining (i + 1) n] ∧
      s'.Leaving := by
  have hj : s.stops[0]? = some (.joining i n) := by simp [hstops]
  obtain ⟨k, o, t, hk, ho, hobj, hp⟩ := h.seat_of_joining hj hne
  have hjoin : ∀ s₁ : State, s₁.crashed = false → s₁.stops = s.stops → s₁.threads = s.threads →
      s₁.objs = s.objs → s₁.Leaving → s₁.Ended k → ∃ s', Reach (State.step S) Inner s₁ s' ∧
        s'.stops = [.joining (i + 1) n] ∧ s'.Leaving := by
    rintro s₁ hc₁ hs₁ ht₁ hobj₁ hleave₁ ⟨o₁, ho₁, hend⟩
    cases hh : t.handle with
    | true =>
      have hstep : s₁.step S (.join 0) = some
          { s₁ with objs := Function.update s₁.objs k (some { t with handle := false })
                    stops := s₁.stops.set 0 (.joining (i + 1) n) } := by
        simp [State.step, State.stopStep, State.join, hc₁, hs₁, hstops, hne, ht₁, hk, hobj₁, hobj, hh,
          ho₁, hend]
      exact ⟨_, reach_of_step hstep trivial, by simp [hs₁, hstops], hleave₁⟩
    | false =>
      have hstep : s₁.step S (.join 0) = some
          { s₁ with stops := s₁.stops.set 0 (.joining (i + 1) n) } := by
        simp [State.step, State.stopStep, State.join, hc₁, hs₁, hstops, hne, ht₁, hk, hobj₁, hobj, hh]
      exact ⟨_, reach_of_step hstep trivial, by simp [hs₁, hstops], hleave₁⟩
  obtain hpc | hend := hleave k o ho
  · have hstep : s.step S (.finish k) = some
        { s with os := Function.update s.os k (some { o with pc := .ended }) } := by
      simp [State.step, h.calls.sound, ho, hpc]
    refine h.progress hstep trivial fun h' => ?_
    exact hjoin _ h'.calls.sound rfl rfl rfl (hleave.finish k o) ⟨_, Function.update_self .., rfl⟩
  · exact hjoin s h.calls.sound rfl rfl rfl hleave ⟨o, ho, hend⟩

lemma Inv.joining_ends (h : Inv S s) (hleave : s.Leaving) (hstops : s.stops = [.joining i n]) :
    ∃ s', Reach (State.step S) Inner s s' ∧ s'.stops = [.clear] := by
  obtain ⟨-, hle, -⟩ := h.calls.joining i n (by simp [hstops])
  induction hm : n - i generalizing s i with
  | zero =>
    obtain rfl : i = n := by omega
    have hs : s.step S (.join 0) = some { s with stops := s.stops.set 0 .clear } := by
      simp [State.step, State.stopStep, h.calls.sound, hstops]
    exact ⟨_, reach_of_step hs trivial, by simp [hstops]⟩
  | succ m ih =>
    obtain ⟨s₁, hr₁, hstops₁, hleave₁⟩ := h.join_ends hleave hstops (by omega)
    obtain ⟨s₂, hr₂, hclear⟩ := ih (h.reach hr₁) hleave₁ hstops₁ (by omega) (by omega)
    exact ⟨s₂, hr₁.trans hr₂, hclear⟩

lemma Inv.clear_ends (h : Inv S s) (hstops : s.stops = [.clear]) :
    ∃ s', Reach (State.step S) Inner s s' ∧ s'.starting = none ∧ s'.stops = [] := by
  have hfree : s.starting = none := h.calls.unlocked (j := 0) (by simp [hstops]; rfl)
  have hs : s.step S (.join 0) = some
      { s with objs := fun k => if some k ∈ s.threads then none else s.objs k
               threads := [], stopping := false, stopped := true, autoStop := false
               stops := s.stops.eraseIdx 0 } := by
    simp [State.step, State.stopStep, h.calls.sound, hstops, hfree]
  exact ⟨_, reach_of_step hs trivial, hfree, by simp [hstops]⟩

/-- `stop` returns, when `shouldStop()` has answered true to its workers. -/
lemma Inv.stop_ends (h : Inv S s) (hleave : s.Leaving) (hfree : s.starting = none) :
    ∃ s', Reach (State.step S) Inner s s' ∧ s'.starting = none ∧ s'.stops = [] := by
  have hjoining : ∀ {s : State} {i n : ℕ}, Inv S s → s.Leaving → s.stops = [.joining i n] →
      ∃ s', Reach (State.step S) Inner s s' ∧ s'.starting = none ∧ s'.stops = [] := by
    intro s i n h hleave hstops
    obtain ⟨s₁, hr₁, hclear⟩ := h.joining_ends hleave hstops
    obtain ⟨s₂, hr₂, hend⟩ := (h.reach hr₁).clear_ends hclear
    exact ⟨s₂, hr₁.trans hr₂, hend⟩
  have hone := h.calls.one
  match hstops : s.stops with
  | [] => exact ⟨s, .refl, hfree, hstops⟩
  | [.flagged] =>
    have hs : s.step S (.join 0) = some
        { s with stops := s.stops.set 0 (.joining 0 s.threads.length) } := by
      simp [State.step, State.stopStep, h.calls.sound, hstops]
    exact h.progress hs trivial fun h₁ =>
      hjoining (i := 0) (n := s.threads.length) h₁ hleave (by simp [hstops])
  | [.joining i n] => exact hjoining h hleave hstops
  | [.clear] => exact h.clear_ends hstops
  | _ :: _ :: _ => simp [hstops] at hone

theorem Inv.calls_end (h : Inv S s) (hstop : s.stops = [] ∨ s.Leaving) :
    ∃ s', Reach (State.step S) Inner s s' ∧ s'.starting = none ∧ s'.stops = [] := by
  cases hpc : s.starting with
  | none =>
    obtain hnil | hleave := hstop
    · exact ⟨s, .refl, hpc, hnil⟩
    · exact h.stop_ends hleave hpc
  | some pc =>
    -- a `start` under way is alone
    obtain ⟨-, hnil, -⟩ := h.calls.alone hpc
    obtain ⟨s', hr, hnone, hstops⟩ := h.start_ends
    exact ⟨s', hr, hnone, hstops.trans hnil⟩

end Progress

/-! ### Starting and stopping -/

/-- In every run of calls that come in turn: nothing that is gone is used, and no assertion of
`start` fails. A thread that has not ended has its `Thread`. The `Thread`s in `m_threads` have
published their id and their names. A worker that has been at work and has not ended sees
`m_threads` with all of them. A scheduler that says it is stopped has no threads left. And the calls
under way can be brought to their end by steps of their own and of the threads, a `stop` provided
that `shouldStop()` has answered true to every worker. -/
theorem lifecycle_safe {S : Setup} {s : State} (hr : Reach (State.step S) Calm {} s) :
    s.crashed = false ∧
    (∀ k o, s.os k = some o → o.pc ≠ .ended → ∃ t, s.objs k = some t) ∧
    (∀ i k : ℕ, s.threads[i]? = some (some k) → ∃ o t, s.os k = some o ∧ s.objs k = some t ∧
      t.id = some k ∧ t.name = S.nameOf i ∧ o.name = S.nameOf i ∧
      o.comm = (S.nameOf i).take 15) ∧
    (∀ k o, s.os k = some o → o.worked = true → o.pc ≠ .ended →
      s.threads.length = S.count ∧ none ∉ s.threads ∧ some k ∈ s.threads) ∧
    (s.stopped = true → s.threads = [] ∧ (∀ k, s.objs k = none) ∧
      ∀ k o, s.os k = some o → o.pc = .ended) ∧
    (s.stops = [] ∨ s.Leaving →
      ∃ s', Reach (State.step S) Inner s s' ∧ s'.starting = none ∧ s'.stops = []) := by
  have h : Inv S s := hr.inv (Inv.init S) fun _ h hcalm hs => h.step hcalm hs
  refine ⟨h.calls.sound, ?_, ?_, ?_, ?_, h.calls_end⟩
  · intro k o ho hne
    obtain ⟨i, hs⟩ := h.workers.live k o ho hne
    obtain ⟨o₁, t, -, ht, -⟩ := h.workers.seated i k hs
    exact ⟨t, ht⟩
  · intro i k hk
    obtain ⟨o, t, ho, ht, hp⟩ := h.workers.seated i k (.inl hk)
    have hstage := h.workers.made i k o hk ho
    exact ⟨o, t, ho, ht, hp.id (by omega), hp.name, hp.threadName (by omega), hp.comm (by omega)⟩
  · intro k o ho hw hne
    have hfree := h.workers.worked k o ho hw hne
    obtain ⟨i, hs | hs⟩ := h.workers.live k o ho hne
    · have hmem := List.mem_of_getElem? hs
      obtain hnil | ⟨hlen, hnone⟩ := h.workers.complete hfree
      · simp [hnil] at hmem
      · exact ⟨hlen, hnone, hmem⟩
    · rw [hfree] at hs
      cases hs
  · intro hst
    obtain ⟨hnil, hfree⟩ := h.calls.stopped hst
    obtain ⟨hobjs, hos⟩ := h.workers.empty hfree hnil
    exact ⟨hnil, hobjs, hos⟩

/-- A pool of two. -/
def pair : Setup := { count := 2, name := ['e', 'v', 'a'] }

/-- A run that starts the two and begins to stop them, with the second still at work behind its
`shouldStop()`. -/
def stopping : List Act :=
  let make (k : ℕ) : List Act := [.create, .run k, .run k, .run k, .run k, .create]
  .start :: make 0 ++ make 1 ++
    [.create, .run 1, .stop, .join 0, .shouldStop 0, .shouldStop 1, .finish 0, .join 0, .run 1]

theorem lifecycle_safe_stopping : ∃ s, Reach (State.step pair) Calm {} s ∧
    s.stops = [.joining 1 2] ∧ (s.os 1).any (fun o => o.worked && o.pc == .leaving) = true ∧
    s.crashed = false ∧ s.Leaving ∧ ∃ s', Reach (State.step pair) Inner s s' ∧ s'.starting = none ∧
      s'.stops = [] := by
  have hrun : (run (State.step pair) (fun s a => decide (Calm s a)) {} stopping).any (fun s =>
      s.stops == [.joining 1 2] && (s.os 1).any (fun o => o.worked && o.pc == .leaving) &&
        (s.next == 2 && (s.os 0).any (fun o => o.pc == .ended))) = true := by
    decide +kernel
  obtain ⟨s, hr, hp⟩ := exists_reach_of_run (G := Calm) (fun s a => by simp) hrun
  simp only [Bool.and_eq_true, beq_iff_eq] at hp
  obtain ⟨⟨hstops, hos⟩, hnext, hended⟩ := hp
  have hleave : s.Leaving := by
    have h : Inv pair s := hr.inv (Inv.init pair) fun _ h hcalm hs => h.step hcalm hs
    intro k o ho
    match k with
    | 0 => exact .inr (by simpa [ho] using hended)
    | 1 =>
      have hpc : o.worked = true ∧ o.pc = .leaving := by simpa [ho] using hos
      exact .inl hpc.2
    | k + 2 =>
      rw [h.workers.fresh (k + 2) (by omega)] at ho
      cases ho
  obtain ⟨hsound, -, -, -, -, hend⟩ := lifecycle_safe hr
  exact ⟨s, hr, hstops, hos, hsound, hleave, hend (.inr hleave)⟩

/-- When the wait of the constructor is interrupted, the thread finds its `Thread` gone. -/
theorem interrupted : ∃ s, Reach (State.step pair) Free {} s ∧ s.crashed = true := by
  have hrun : (run (State.step pair) (fun _ _ => true) {} [.start, .create, .interrupt, .run 0]).any
      State.crashed = true := by
    decide +kernel
  exact exists_reach_of_run (G := Free) (fun _ _ _ => trivial) hrun

end Eva01.Scheduler.Lifecycle
