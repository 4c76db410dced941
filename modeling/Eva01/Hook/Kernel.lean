import Eva01.Hook.Calls
import Mathlib

/-!
A kernel behind the hooked functions.

It has the open descriptors, each a socket or not, with its status flags. `F_SETFL` writes the flags
that can be changed, `FIONBIO` the bit `O_NONBLOCK` alone. Which calls fail, and which descriptor a
call for a new one returns, is open: `fails` and `fresh` are set before each call. An `Outside` is
made of it, with which the functions of `Hook.Calls` run.
-/

namespace Eva01.Hook

open Eva01.Lib Eva01.Lib.Interact

/-- An open descriptor. -/
@[ext] structure File where
  sock : Bool
  flags : BitVec 32
  deriving DecidableEq, Repr

/-- The flags that `F_SETFL` changes: `O_APPEND`, `O_NONBLOCK`, `O_ASYNC`, `O_DIRECT`, `O_NOATIME`. -/
def setflMask : BitVec 32 := 0x46C00

namespace File

variable {f : File} {flags : BitVec 32} {v : Bool}

def setfl (f : File) (flags : BitVec 32) : File :=
  { f with flags := f.flags &&& ~~~setflMask ||| flags &&& setflMask }

def fionbio (f : File) (v : Bool) : File := { f with flags := setNonblock f.flags v }

/-- `st_mode`, of a socket or a regular file. -/
def mode (f : File) : ℤ := if f.sock then 0xC000 else 0x8000

lemma getLsbD_setfl {i : ℕ} (hi : i < 32) : (f.setfl flags).flags.getLsbD i =
    if setflMask.getLsbD i then flags.getLsbD i else f.flags.getLsbD i := by
  simp only [setfl, BitVec.getLsbD_or, BitVec.getLsbD_and, BitVec.getLsbD_not, hi, decide_true]
  cases setflMask.getLsbD i <;> simp

@[simp] lemma isNonblock_setfl : isNonblock (f.setfl flags).flags = isNonblock flags := by
  rw [isNonblock_eq, getLsbD_setfl (by decide), if_pos (by decide), isNonblock_eq]

@[simp] lemma isNonblock_fionbio : isNonblock (f.fionbio v).flags = v := isNonblock_setNonblock

@[simp] lemma sIsSock_mode : sIsSock f.mode = f.sock := by
  unfold mode
  cases f.sock <;> decide

lemma mode_ne : f.mode ≠ -1 := by
  unfold mode
  split <;> decide

end File

/-- The calls that are told apart in what fails. -/
inductive Kind
  | socket
  | accept
  | fstat
  | getfl
  | setfl
  | ioctl
  | close
  deriving DecidableEq, Repr

structure Kernel where
  files : ℤ → Option File
  /-- What a call for a new descriptor returns. -/
  fresh : ℕ := 0
  /-- The calls that fail, with `errno`. -/
  fails : Kind → Option ℤ := fun _ => none
  /-- The `int` at a pointer. -/
  ints : Ptr → ℤ := fun _ => 0

def EMFILE : ℤ := 24
def oRdwr : BitVec 32 := 2

namespace Kernel

variable {k : Kernel} {fd : ℤ} {f : File}

def put (k : Kernel) (fd : ℤ) (f : Option File) : Kernel :=
  { k with files := Function.update k.files fd f }

@[simp] lemma put_files : (k.put fd (some f)).files = Function.update k.files fd (some f) := rfl

/-- A call of a kind, unless it is to fail. -/
def attempt (k : Kernel) (kind : Kind) (r : Ret × Kernel) : Ret × Kernel :=
  match k.fails kind with
  | some e => (⟨-1, e⟩, k)
  | none => r

/-- A call on a descriptor that has to be open. -/
def onFile (k : Kernel) (fd : ℤ) (g : File → Ret × Kernel) : Ret × Kernel :=
  match k.files fd with
  | none => (⟨-1, EBADF⟩, k)
  | some f => g f

/-- A call that changes an open descriptor. -/
def modify (k : Kernel) (kind : Kind) (fd : ℤ) (g : File → File) : Ret × Kernel :=
  k.attempt kind (k.onFile fd fun f => (⟨0, 0⟩, k.put fd (some (g f))))

/-- What `F_GETFL` returns. -/
def getfl (k : Kernel) (fd : ℤ) : Ret :=
  match k.fails .getfl, k.files fd with
  | some e, _ => ⟨-1, e⟩
  | none, none => ⟨-1, EBADF⟩
  | none, some f => ⟨f.flags.toInt, 0⟩

/-- A new socket, at a descriptor that is not in use. -/
def opens (k : Kernel) (flags : BitVec 32) : Ret × Kernel :=
  match k.files k.fresh with
  | some _ => (⟨-1, EMFILE⟩, k)
  | none => (⟨k.fresh, 0⟩, k.put k.fresh (some { sock := true, flags := flags }))

def respond (k : Kernel) : Request → Ret × Kernel
  | .sys (.socket _ type _) =>
      k.attempt .socket (k.opens (oRdwr ||| .ofInt 32 type &&& oNonblock))
  | .sys (.accept s _ _) => k.attempt .accept (k.onFile s fun _ => k.opens oRdwr)
  | .fstat fd => k.attempt .fstat (k.onFile fd fun f => (⟨f.mode, 0⟩, k))
  | .sys (.fcntl fd .getfl) => (k.getfl fd, k)
  | .sys (.fcntl fd (.setfl flags)) => k.modify .setfl fd fun f => f.setfl flags
  | .sys (.ioctl fd request arg) =>
      if request = FIONBIO then k.modify .ioctl fd fun f => f.fionbio (k.ints arg != 0)
      else (⟨0, 0⟩, k)
  | .sys (.close fd) => k.attempt .close (k.onFile fd fun _ => (⟨0, 0⟩, k.put fd none))
  | .iom _ => (⟨1, 0⟩, k)
  | _ => (⟨0, 0⟩, k)

section Modify

variable {kind : Kind} {g : File → File}

lemma attempt_of_some {e : ℤ} {r : Ret × Kernel} (h : k.fails kind = some e) :
    k.attempt kind r = (⟨-1, e⟩, k) := by simp [attempt, h]

lemma attempt_of_none {r : Ret × Kernel} (h : k.fails kind = none) : k.attempt kind r = r := by
  simp [attempt, h]

lemma opens_of_used {flags : BitVec 32} (h : k.files k.fresh = some f) :
    k.opens flags = (⟨-1, EMFILE⟩, k) := by simp [opens, h]

lemma opens_of_unused {flags : BitVec 32} (h : k.files k.fresh = none) :
    k.opens flags = (⟨k.fresh, 0⟩, k.put k.fresh (some { sock := true, flags := flags })) := by
  simp [opens, h]

lemma modify_of_fails {e : ℤ} (h : k.fails kind = some e) :
    k.modify kind fd g = (⟨-1, e⟩, k) := attempt_of_some h

lemma modify_of_closed (h : k.fails kind = none) (hfd : k.files fd = none) :
    k.modify kind fd g = (⟨-1, EBADF⟩, k) := by
  rw [modify, attempt_of_none h, onFile, hfd]

lemma modify_of_open (h : k.fails kind = none) (hfd : k.files fd = some f) :
    k.modify kind fd g = (⟨0, 0⟩, k.put fd (some (g f))) := by
  rw [modify, attempt_of_none h, onFile, hfd]

/-- When nothing fails, an open descriptor is changed, and one that is not open stays so. -/
lemma modify_files (hk : k.fails kind = none) :
    (k.modify kind fd g).2.files = Function.update k.files fd ((k.files fd).map g) := by
  cases hf : k.files fd with
  | none => rw [modify_of_closed hk hf, Option.map_none, ← hf, Function.update_eq_self]
  | some f =>
      rw [modify_of_open hk hf]
      rfl

lemma close_files (hk : k.fails .close = none) :
    (k.respond (.sys (.close fd))).2.files = Function.update k.files fd none := by
  simp only [respond, attempt_of_none hk, onFile]
  cases hf : k.files fd with
  | none => simp [← hf]
  | some f => rfl

end Modify

end Kernel

lemma toInt_lt (x : BitVec 32) : -2 ^ 31 ≤ x.toInt ∧ x.toInt < 2 ^ 31 := by
  have := x.toInt_lt
  have := x.le_toInt
  omega

/-- The kernel as the outside of the hooked functions. -/
def kernel : Outside Kernel where
  answer k q := k.respond q
  readInt k p := some (k.ints p)
  readTime _ _ := some (0, 0)
  cancelled _ := ETIMEDOUT
  fcntl_int k fd cmd := by
    cases cmd with
    | getfl =>
        simp only [Kernel.respond, Kernel.getfl]
        split
        · simp
        · simp
        · exact toInt_lt _
    | setfl flags =>
        simp only [Kernel.respond, Kernel.modify, Kernel.attempt, Kernel.onFile]
        split
        · simp
        · split <;> simp
    | _ => simp [Kernel.respond]
  accept_new k s addr addrlen hs := by
    simp only [Kernel.respond, Kernel.attempt, Kernel.onFile, Kernel.opens]
    split
    · simp only; omega
    · split
      · simp only; omega
      · rename_i hfile
        split
        · simp only; omega
        · rename_i hfresh
          rintro rfl
          cases hfile.symm.trans hfresh

@[simp] lemma kernel_answer {k : Kernel} {q : Request} : kernel.answer k q = k.respond q := rfl

/-! ### The context of a new socket -/

section Init

variable {w : State Kernel} {fd : ℤ} {f : File}

lemma statSock_kernel (hf : w.out.files fd = some f) (hstat : w.out.fails .fstat = none) :
    statSock kernel fd w = f.sock := by
  simp [statSock, Kernel.respond, Kernel.attempt_of_none hstat, Kernel.onFile, hf, File.mode_ne]

lemma initCtx_kernel (hf : w.out.files fd = some f) (hstat : w.out.fails .fstat = none) :
    initCtx kernel fd w =
      { isInit := true, isSocket := f.sock, sysNonblock := f.sock, fd := fd } := by
  rw [initCtx, statSock_kernel hf hstat]
  simp [Kernel.respond, Kernel.attempt_of_none hstat, Kernel.onFile, hf, File.mode_ne]

lemma respond_fstat {k : Kernel} : (k.respond (.fstat fd)).2 = k := by
  simp only [Kernel.respond, Kernel.attempt, Kernel.onFile]
  cases k.fails .fstat <;> cases k.files fd <;> rfl

/-- The flags that are read, unless they cannot be: `-1` has every bit. -/
lemma initFlags_kernel (hf : w.out.files fd = some f) (hblock : ¬isNonblock (initFlags kernel fd w)) :
    initFlags kernel fd w = f.flags := by
  have hflags : initFlags kernel fd w = .ofInt 32 (w.out.getfl fd).value := by
    rw [initFlags, kernel_answer, kernel_answer, respond_fstat]
    rfl
  rw [hflags, Kernel.getfl, hf] at hblock ⊢
  cases hfail : w.out.fails .getfl with
  | none => simp
  | some e =>
      rw [hfail] at hblock
      exact absurd (by decide : isNonblock (.ofInt 32 (-1)) = true) hblock

/-- **`FdCtx::init` in the kernel**: `O_NONBLOCK` may be set, and nothing else changes. -/
lemma initWorld_kernel (hf : w.out.files fd = some f) :
    ∃ f', (initWorld kernel fd w).out.files = Function.update w.out.files fd (some f') ∧
      (f' = f ∨ f' = f.setfl (setNonblock f.flags true)) := by
  have hsame : w.out.files = Function.update w.out.files fd (some f) := by
    rw [← hf, Function.update_eq_self]
  have hgetfl : ∀ k : Kernel, (k.respond (.sys (.fcntl fd .getfl))).2 = k := fun _ => rfl
  simp only [initWorld]
  split_ifs with hsock hblock
  · exact ⟨f, by simpa [respond_fstat, hgetfl] using hsame, .inl rfl⟩
  · simp only [answered_out, kernel_answer, respond_fstat, hgetfl, initFlags_kernel hf hblock]
    change ∃ f', (w.out.modify .setfl fd fun f' => f'.setfl (setNonblock f.flags true)).2.files = _ ∧ _
    cases hfail : w.out.fails .setfl with
    | some e => exact ⟨f, by rwa [Kernel.modify_of_fails hfail], .inl rfl⟩
    | none => exact ⟨_, by rw [Kernel.modify_of_open hfail hf]; rfl, .inr rfl⟩
  · exact ⟨f, by simpa [respond_fstat] using hsame, .inl rfl⟩

lemma initWorld_files (hf : w.out.files fd = some f) (hfails : w.out.fails = fun _ => none) :
    (initWorld kernel fd w).out.files =
      if f.sock && !isNonblock f.flags then
        Function.update w.out.files fd (some (f.setfl (f.flags ||| oNonblock)))
      else w.out.files := by
  have hflags : initFlags kernel fd w = f.flags := by
    rw [initFlags, kernel_answer, kernel_answer, respond_fstat]
    simp [Kernel.respond, Kernel.getfl, hfails, hf]
  have hgetfl : ∀ k : Kernel, (k.respond (.sys (.fcntl fd .getfl))).2 = k := fun _ => rfl
  have hsetfl : w.out.fails .setfl = none := by rw [hfails]
  simp only [initWorld, statSock_kernel hf (by rw [hfails]), hflags]
  cases f.sock <;> cases hblock : isNonblock f.flags <;>
    simp [respond_fstat, hgetfl]
  simp only [Kernel.respond, Kernel.modify_files hsetfl, hf, Option.map_some]

end Init

end Eva01.Hook
