import Eva01.Lib.Vec
import Mathlib

/-!
`FdCtx` and the table of `FdManager`: what the hooked functions know of a descriptor.

`get` without `auto_create`, `del` and the end of `get` with it are functions on the table. The
pointers that `get` returns are shared, and a call that writes through one writes the entry of the
table; `put` stands for that. Descriptors are of type `int`: `-1` is tested for, other negative ones
pass the test of the size and index the table out of range.
-/

namespace Eva01.Hook

open Eva01.Lib

/-- What ends the process, or a computation that is followed only so far. -/
inductive Fail
  /-- `m_datas[fd]` out of range -/
  | outOfRange
  /-- a call through the null pointer that `IOManager::GetThis()` returned -/
  | noManager
  /-- a pointer argument that cannot be read -/
  | unreadable
  /-- the loop of `do_io` has not ended -/
  | fuel
  deriving DecidableEq, Repr

/-- The timeouts of a socket: `SO_RCVTIMEO`, `SO_SNDTIMEO`. -/
inductive Direction
  | recv
  | send
  deriving DecidableEq, Repr

/-- `(uint64_t)-1` -/
def forever : ℕ := 2 ^ 64 - 1

structure FdCtx where
  isInit : Bool := false
  isSocket : Bool := false
  sysNonblock : Bool := false
  userNonblock : Bool := false
  isClosed : Bool := false
  fd : ℤ
  recvTimeout : ℕ := forever
  sendTimeout : ℕ := forever
  deriving DecidableEq, Repr

namespace FdCtx

def setTimeout (c : FdCtx) (type : Direction) (v : ℕ) : FdCtx :=
  match type with
  | .recv => { c with recvTimeout := v }
  | .send => { c with sendTimeout := v }

def getTimeout (c : FdCtx) : Direction → ℕ
  | .recv => c.recvTimeout
  | .send => c.sendTimeout

def setUserNonblock (c : FdCtx) (v : Bool) : FdCtx := { c with userNonblock := v }

lemma setUserNonblock_self {c : FdCtx} {v : Bool} (h : c.userNonblock = v) :
    c.setUserNonblock v = c := by
  subst h
  rfl

/-- The context of an open socket, for which the calls are more than passed on. -/
def isManaged (c : FdCtx) : Bool := !c.isClosed && c.isSocket

end FdCtx

/-- `m_datas`. -/
structure FdManager where
  datas : List (Option FdCtx) := List.replicate 64 none
  deriving DecidableEq, Repr

namespace FdManager

variable {m : FdManager} {fd fd' : ℤ} {c : FdCtx}

/-- `(int)m_datas.size()` -/
def size (m : FdManager) : ℤ := Vec.toInt m.datas.length

/-- `m_datas[fd]`, behind the test of the size. -/
def slot (m : FdManager) (fd : ℤ) : Except Fail (Option FdCtx) :=
  if fd < 0 then .error .outOfRange
  else
    match m.datas[fd.toNat]? with
    | none => .error .outOfRange
    | some c => .ok c

/-- `get(fd, false)` -/
def get (m : FdManager) (fd : ℤ) : Except Fail (Option FdCtx) :=
  if fd = -1 then .ok none
  else if m.size ≤ fd then .ok none
  else m.slot fd

/-- `if(fd >= (int)m_datas.size()) m_datas.resize(fd * 1.5)` -/
def grow (m : FdManager) (fd : ℤ) : List (Option FdCtx) :=
  if m.size ≤ fd then Vec.resize (fd.toNat * 3 / 2) none m.datas else m.datas

/-- `m_datas[fd] = ctx`, at the end of `get(fd, true)`. -/
def store (m : FdManager) (fd : ℤ) (c : FdCtx) : Except Fail FdManager :=
  if 0 ≤ fd ∧ fd.toNat < (m.grow fd).length then
    .ok { datas := (m.grow fd).set fd.toNat (some c) }
  else .error .outOfRange

def del (m : FdManager) (fd : ℤ) : Except Fail FdManager :=
  if m.size ≤ fd then .ok m
  else if fd < 0 then .error .outOfRange
  else .ok { datas := m.datas.set fd.toNat none }

/-- Writing through the pointer to the context of `fd`. -/
def put (m : FdManager) (fd : ℤ) (c : FdCtx) : FdManager := { datas := m.datas.set fd.toNat (some c) }

/-- The context of a descriptor, as an entry of the table. -/
def entry (m : FdManager) (fd : ℤ) : Option FdCtx :=
  if 0 ≤ fd then (m.datas[fd.toNat]?).join else none

/-! ### Entries -/

lemma entry_eq_held : m.entry fd = Vec.held m.datas fd := rfl

lemma entry_of_nonneg (h : 0 ≤ fd) : m.entry fd = (m.datas[fd.toNat]?).join := if_pos h

lemma lt_length_of_entry (h : m.entry fd = some c) : 0 ≤ fd ∧ fd.toNat < m.datas.length :=
  Vec.lt_length_of_held h

lemma get_of_nonneg (hfd : 0 ≤ fd) :
    m.get fd = .ok (if m.size ≤ fd then none else m.entry fd) := by
  rw [get, if_neg (by omega), slot, entry_of_nonneg hfd]
  by_cases hle : m.size ≤ fd
  · rw [if_pos hle, if_pos hle]
  · have hsize : m.size ≤ m.datas.length := Vec.toInt_le _
    rw [if_neg hle, if_neg hle, if_neg (by omega), List.getElem?_eq_getElem (by omega)]
    rfl

/-- As long as sizes fit an `int`, `get` returns the entry. -/
lemma get_eq_entry (hfd : -1 ≤ fd) (hsize : m.datas.length < 2 ^ 31) :
    m.get fd = .ok (m.entry fd) := by
  by_cases hneg : fd = -1
  · simp [hneg, entry, get]
  · have hnonneg : 0 ≤ fd := by omega
    rw [get_of_nonneg hnonneg]
    split
    · rename_i hle
      rw [show m.size = m.datas.length from Vec.toInt_of_lt hsize] at hle
      rw [entry_of_nonneg hnonneg, List.getElem?_eq_none (by omega)]
      rfl
    · rfl

lemma get_of_entry_none (hfd : 0 ≤ fd) (h : m.entry fd = none) : m.get fd = .ok none := by
  rw [get_of_nonneg hfd, h, ite_self]

lemma entry_of_get (h : m.get fd = .ok (some c)) : m.entry fd = some c := by
  unfold get slot at h
  split at h
  · cases h
  · split at h
    · cases h
    · split at h
      · cases h
      · rw [entry_of_nonneg (by omega)]
        split at h
        · cases h
        · rename_i hc
          cases h
          rw [hc]
          rfl

lemma entry_put_self (h : (m.entry fd).isSome) : (m.put fd c).entry fd = some c := by
  obtain ⟨c', hc'⟩ := Option.isSome_iff_exists.1 h
  obtain ⟨hfd, hlt⟩ := lt_length_of_entry hc'
  exact Vec.held_set_self hfd hlt

lemma entry_put_of_ne (h : fd' ≠ fd) (hfd : 0 ≤ fd) : (m.put fd c).entry fd' = m.entry fd' :=
  Vec.held_set_of_ne hfd h

lemma put_self (h : m.entry fd = some c) : m.put fd c = m := by
  obtain ⟨hfd, hlt⟩ := lt_length_of_entry h
  rw [entry_of_nonneg hfd, List.getElem?_eq_getElem hlt] at h
  rw [put, ← show m.datas[fd.toNat] = some c from h, List.set_getElem_self]

lemma get_put_self {c' : FdCtx} (h : m.get fd = .ok (some c)) :
    (m.put fd c').get fd = .ok (some c') := by
  have hentry := entry_of_get h
  have hfd := (lt_length_of_entry hentry).1
  have hsize : (m.put fd c').size = m.size := by rw [size, size, put, List.length_set]
  have hlt : ¬m.size ≤ fd := by
    intro hle
    rw [get_of_nonneg hfd, if_pos hle] at h
    cases h
  rw [get_of_nonneg hfd, hsize, if_neg hlt, entry_put_self (by simp [hentry])]

lemma eq_of_put_eq {c' : FdCtx} (h : m.entry fd = some c) (hput : m.put fd c' = m) : c' = c := by
  have hself : (m.put fd c').entry fd = some c' := entry_put_self (by simp [h])
  rw [hput, h] at hself
  exact (Option.some.inj hself).symm

/-! ### Storing a new context -/

/-- Storing fails for the descriptors 0 and 1 when the table has to grow for them. -/
lemma store_isOk (hfd : 0 ≤ fd) : (∃ m', m.store fd c = .ok m') ↔ (m.size ≤ fd → 2 ≤ fd) := by
  have hsize : m.size ≤ m.datas.length := Vec.toInt_le _
  have hroom : fd.toNat < (m.grow fd).length ↔ (m.size ≤ fd → 2 ≤ fd) := by
    unfold grow
    split
    · rw [Vec.length_resize]
      omega
    · omega
  unfold store
  split
  · rename_i h
    exact iff_of_true ⟨_, rfl⟩ (hroom.1 h.2)
  · rename_i h
    exact iff_of_false (by simp) fun h' => h ⟨hfd, hroom.2 h'⟩

lemma held_grow_none (h : m.entry fd' = none) : Vec.held (m.grow fd) fd' = none := by
  unfold grow
  split
  · by_cases hn : fd'.toNat < fd.toNat * 3 / 2
    · rw [Vec.held_resize hn]
      exact h
    · exact Vec.held_of_le (by rw [Vec.length_resize]; omega)
  · exact h

/-- A descriptor without a context has none afterwards, unless it is the one stored. -/
lemma entry_store_none {m' : FdManager} (h : m.store fd c = .ok m') (hne : fd' ≠ fd)
    (he : m.entry fd' = none) : m'.entry fd' = none := by
  unfold store at h
  split at h
  · rename_i hroom
    cases h
    rw [entry_eq_held, Vec.held_set_of_ne hroom.1 hne]
    exact held_grow_none he
  · cases h

/-- A table as it is constructed or larger, and small enough for an `int`. -/
def Sized (m : FdManager) : Prop := 64 ≤ m.datas.length ∧ m.datas.length < 2 ^ 31

lemma Sized.put (h : m.Sized) : (m.put fd c).Sized := by simpa [Sized, FdManager.put] using h

lemma Sized.get (h : m.Sized) (hfd : 0 ≤ fd) : m.get fd = .ok (m.entry fd) :=
  get_eq_entry (by omega) h.2

lemma sized_constructed : ({} : FdManager).Sized := by simp [Sized]

lemma entry_constructed : ({} : FdManager).entry fd = none := by
  unfold entry
  split
  · rw [List.getElem?_replicate]
    split <;> rfl
  · rfl

lemma Sized.held_grow (h : m.Sized) (hfd : 0 ≤ fd) (fd' : ℤ) :
    Vec.held (m.grow fd) fd' = m.entry fd' := by
  unfold grow
  split
  · rename_i hle
    rw [show m.size = m.datas.length from Vec.toInt_of_lt h.2] at hle
    have hleast := h.1
    by_cases hn : fd'.toNat < fd.toNat * 3 / 2
    · exact Vec.held_resize hn
    · rw [Vec.held_of_le (by rw [Vec.length_resize]; omega), entry_eq_held,
        Vec.held_of_le (by omega)]
  · rfl

lemma Sized.del (h : m.Sized) (hfd : 0 ≤ fd) : ∃ m', m.del fd = .ok m' ∧ m'.Sized ∧
    m'.entry fd = none ∧ ∀ fd' ≠ fd, m'.entry fd' = m.entry fd' := by
  have hsize : m.size = m.datas.length := Vec.toInt_of_lt h.2
  unfold FdManager.del
  split
  · refine ⟨m, rfl, h, ?_, fun _ _ => rfl⟩
    rw [entry_of_nonneg hfd, List.getElem?_eq_none (by omega)]
    rfl
  · rw [if_neg (by omega)]
    exact ⟨_, rfl, by simpa [Sized] using h, Vec.held_set_self hfd (by omega),
      fun fd' hne => Vec.held_set_of_ne hfd hne⟩

/-- **Storing a context** changes the entry of its descriptor alone. -/
theorem Sized.store (h : m.Sized) (hfd : 0 ≤ fd)
    (hroom : m.size ≤ fd → fd.toNat * 3 / 2 < 2 ^ 31) :
    ∃ m', m.store fd c = .ok m' ∧ m'.Sized ∧ m'.entry fd = some c ∧
      ∀ fd' ≠ fd, m'.entry fd' = m.entry fd' := by
  have hsize : m.size = m.datas.length := Vec.toInt_of_lt h.2
  obtain ⟨hleast, hmost⟩ := h
  have hlength : fd.toNat < (m.grow fd).length ∧ 64 ≤ (m.grow fd).length ∧
      (m.grow fd).length < 2 ^ 31 := by
    unfold grow
    split
    · rename_i hle
      have hsmall := hroom hle
      rw [Vec.length_resize]
      omega
    · omega
  refine ⟨_, if_pos ⟨hfd, hlength.1⟩, by simpa [Sized] using hlength.2,
    Vec.held_set_self hfd hlength.1, fun fd' hne => ?_⟩
  rw [entry_eq_held, Vec.held_set_of_ne hfd hne, Sized.held_grow ⟨hleast, hmost⟩ hfd]

end FdManager

/-! ### Flags -/

/-- `O_NONBLOCK`, and `SOCK_NONBLOCK` in the type of a socket. -/
def oNonblock : BitVec 32 := 0x800

/-- `flags & O_NONBLOCK` -/
def isNonblock (flags : BitVec 32) : Bool := flags &&& oNonblock != 0

/-- `flags | O_NONBLOCK`, `flags & ~O_NONBLOCK` -/
def setNonblock (flags : BitVec 32) (v : Bool) : BitVec 32 :=
  if v then flags ||| oNonblock else flags &&& ~~~oNonblock

section Flags

variable {flags : BitVec 32} {v v' : Bool} {i : ℕ}

lemma oNonblock_eq : oNonblock = BitVec.twoPow 32 11 := rfl

lemma isNonblock_eq : isNonblock flags = flags.getLsbD 11 := by
  unfold isNonblock
  rw [oNonblock_eq, BitVec.and_twoPow]
  cases flags.getLsbD 11 <;> rfl

lemma getLsbD_setNonblock (hi : i < 32) :
    (setNonblock flags v).getLsbD i = if i = 11 then v else flags.getLsbD i := by
  unfold setNonblock
  rw [oNonblock_eq]
  cases v with
  | false => simp [hi, eq_comm (a := i), Bool.and_comm]
  | true => simp [hi, eq_comm (a := i), Bool.or_comm]

@[simp] lemma isNonblock_setNonblock : isNonblock (setNonblock flags v) = v := by
  rw [isNonblock_eq, getLsbD_setNonblock (by decide), if_pos rfl]

@[simp] lemma setNonblock_setNonblock : setNonblock (setNonblock flags v) v' = setNonblock flags v' := by
  refine BitVec.eq_of_getLsbD_eq fun i hi => ?_
  simp only [getLsbD_setNonblock hi]
  split <;> rfl

lemma setNonblock_eq_self : setNonblock flags v = flags ↔ isNonblock flags = v := by
  refine ⟨fun h => ?_, fun h => BitVec.eq_of_getLsbD_eq fun i hi => ?_⟩
  · rw [← h, isNonblock_setNonblock]
  · rw [getLsbD_setNonblock hi]
    split
    · subst i
      rw [← h, isNonblock_eq]
    · rfl

end Flags

end Eva01.Hook
