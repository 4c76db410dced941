import Mathlib

/-!
`MutexReadGuard` and `MutexWriteGuard`: the guards of an `RWMutex`.

A guard acquires the lock when it is constructed and releases it when it is destroyed; in between
`lock()` and `unlock()` may be called on it in any order. It knows by `m_locked` whether it holds the
lock. What happens to the lock is the list of the calls that the guard makes on it, and `holding`
follows them: the second acquisition in a row, or a release of what is not held, has no result.

The two classes differ in what they call to acquire, and in their constructors: that of
`MutexWriteGuard` does not set `m_locked`. The member then has the value its storage happens to
have, an argument of the constructors here. Where that is false, the guard holds the lock and does
not know (`guards_balanced_iff`).
-/

namespace Eva01.Mutex

/-! ### The guards -/

/-- The calls on an `RWMutex`. -/
inductive LockCall
  | rdlock
  | wrlock
  | unlock
  deriving DecidableEq, Repr

structure Guard where
  /-- `m_locked` -/
  locked : Bool
  /-- The calls made on the lock so far. -/
  calls : List LockCall
  deriving DecidableEq, Repr

/-- `lock()`, with the call that acquires. -/
def Guard.lockBy (acquire : LockCall) (g : Guard) : Guard :=
  if !g.locked then { locked := true, calls := g.calls ++ [acquire] } else g

/-- `unlock()` of both classes. -/
def Guard.unlock (g : Guard) : Guard :=
  if g.locked then { locked := false, calls := g.calls ++ [.unlock] } else g

namespace MutexReadGuard

/-- The constructor, with what `m_locked` is before. -/
def construct (_ : Bool) : Guard := { locked := true, calls := [.rdlock] }

def lock : Guard → Guard := Guard.lockBy .rdlock

def unlock : Guard → Guard := Guard.unlock

/-- The destructor. -/
def destroy : Guard → Guard := unlock

end MutexReadGuard

namespace MutexWriteGuard

/-- The constructor, with what `m_locked` is before; it stays so. -/
def construct (locked : Bool) : Guard := { locked := locked, calls := [.wrlock] }

def lock : Guard → Guard := Guard.lockBy .wrlock

def unlock : Guard → Guard := Guard.unlock

/-- The destructor. -/
def destroy : Guard → Guard := unlock

end MutexWriteGuard

inductive GuardClass
  | read
  | write
  deriving DecidableEq, Repr

/-- What is called on a guard between its construction and its destruction. -/
inductive GuardOp
  | lock
  | unlock
  deriving DecidableEq, Repr

namespace GuardClass

def construct : GuardClass → Bool → Guard
  | .read => MutexReadGuard.construct
  | .write => MutexWriteGuard.construct

def perform : GuardClass → Guard → GuardOp → Guard
  | .read, g, .lock => MutexReadGuard.lock g
  | .read, g, .unlock => MutexReadGuard.unlock g
  | .write, g, .lock => MutexWriteGuard.lock g
  | .write, g, .unlock => MutexWriteGuard.unlock g

def destroy : GuardClass → Guard → Guard
  | .read => MutexReadGuard.destroy
  | .write => MutexWriteGuard.destroy

/-- The guard behind its construction and a sequence of calls. -/
def live (c : GuardClass) (uninit : Bool) (ops : List GuardOp) : Guard :=
  ops.foldl c.perform (c.construct uninit)

end GuardClass

/-! ### Who holds the lock -/

/-- Whether the guard holds the lock behind a call, by whether it did before. -/
def LockCall.after (held : Bool) : LockCall → Option Bool
  | .rdlock | .wrlock => if held then none else some true
  | .unlock => if held then some false else none

/-- Whether the guard holds the lock behind its calls; none if it acquired the lock twice, or
released what it did not hold. -/
def holding (calls : List LockCall) : Option Bool := calls.foldlM LockCall.after false

/-- `m_locked` is true exactly if the guard holds the lock, which it acquired and released in turn. -/
def Guard.Knows (g : Guard) : Prop := holding g.calls = some g.locked

/-- The guard knows whether it holds the lock as long as it lives, and holds nothing in the end. -/
def Balanced (c : GuardClass) (uninit : Bool) (ops : List GuardOp) : Prop :=
  (∀ done, done <+: ops → (c.live uninit done).Knows) ∧
    holding (c.destroy (c.live uninit ops)).calls = some false

lemma holding_snoc (calls : List LockCall) (c : LockCall) :
    holding (calls ++ [c]) = (holding calls).bind fun held => c.after held := by
  simp [holding, List.foldlM_append]

namespace Guard.Knows

variable {g : Guard}

lemma lockBy (h : g.Knows) {acquire : LockCall} (ha : acquire ≠ .unlock) :
    (g.lockBy acquire).Knows := by
  unfold Guard.lockBy
  split
  · rename_i hfree
    show holding (g.calls ++ [acquire]) = some true
    rw [holding_snoc, h, show g.locked = false by simpa using hfree]
    cases acquire with
    | rdlock | wrlock => rfl
    | unlock => exact absurd rfl ha
  · exact h

lemma unlock (h : g.Knows) : g.unlock.Knows := by
  unfold Guard.unlock
  split
  · rename_i hlocked
    show holding (g.calls ++ [.unlock]) = some false
    rw [holding_snoc, h, hlocked]
    rfl
  · exact h

lemma released (h : g.Knows) : holding g.unlock.calls = some false := by
  have hfree : g.unlock.locked = false := by
    unfold Guard.unlock
    split
    · rfl
    · rename_i hlocked
      simpa using hlocked
  rw [h.unlock, hfree]

lemma perform (h : g.Knows) (c : GuardClass) (op : GuardOp) : (c.perform g op).Knows := by
  cases c with
  | read =>
    cases op with
    | lock => exact h.lockBy (by decide)
    | unlock => exact h.unlock
  | write =>
    cases op with
    | lock => exact h.lockBy (by decide)
    | unlock => exact h.unlock

end Guard.Knows

/-- A guard knows behind its construction, unless it is a write guard on storage that is false. -/
lemma knows_construct (c : GuardClass) (uninit : Bool) :
    (c.construct uninit).Knows ↔ c = .read ∨ uninit = true := by
  cases c with
  | read => exact iff_of_true rfl (.inl rfl)
  | write =>
    show some true = some uninit ↔ _
    cases uninit <;> decide

/-- What is called on a guard that knows leaves it so: by induction on the calls. -/
lemma Guard.Knows.foldl {g : Guard} (h : g.Knows) (c : GuardClass) (ops : List GuardOp) :
    (ops.foldl c.perform g).Knows := by
  induction ops generalizing g with
  | nil => exact h
  | cons op ops ih => exact ih (h.perform c op)

/-- **A guard is balanced exactly if its constructor has set `m_locked` or the storage was true
already.** Then, whatever is called on it, it never acquires the lock twice, never releases it
without holding it, and has released it in the end. -/
theorem guards_balanced_iff (c : GuardClass) (uninit : Bool) (ops : List GuardOp) :
    Balanced c uninit ops ↔ c = .read ∨ uninit = true := by
  rw [← knows_construct c uninit]
  constructor
  · intro h
    exact h.1 [] (List.nil_prefix)
  · intro h
    refine ⟨fun done _ => h.foldl c done, ?_⟩
    have hlive : (c.live uninit ops).Knows := h.foldl c ops
    cases c with
    | read => exact hlive.released
    | write => exact hlive.released

/-- **A write guard on storage that is false.** Its destructor does not release the lock, and a
`lock()` in between acquires it a second time. -/
theorem write_guard_leaks :
    holding (MutexWriteGuard.destroy (MutexWriteGuard.construct false)).calls = some true ∧
    holding (MutexWriteGuard.lock (MutexWriteGuard.construct false)).calls = none := by
  decide

end Eva01.Mutex
