import Eva01.Hook.Kernel
import Eva01.Lib.Runs

/-!
Managed sockets and the kernel's `O_NONBLOCK`, with calls of several threads under way.

A hooked call is more than one step: `FdManager::get` under the read lock, `FdCtx::init` with its
own calls to the kernel, and the underlying call. Between them other threads go on. `Phase` says
what a call under way does next, and any of them may. The machine has the descriptors that are open,
the table and these calls; the underlying calls succeed on descriptors that are open.

That `FdCtx::init` runs under the write lock is left out, which only allows more runs.
-/

namespace Eva01.Hook

open Eva01.Lib Eva01.Lib.Interact Eva01.Lib.Runs

/-! ### The machine -/

/-- What a call does next. -/
inductive Phase
  /-- `get(fd, true)`, when `socket_f` or `accept_f` has returned -/
  | get
  /-- `fstat`, `fcntl_f(F_GETFL)` and `fcntl_f(F_SETFL, flags | O_NONBLOCK)` of `FdCtx::init` -/
  | fstat
  | getfl
  | initfl (flags : BitVec 32)
  /-- `m_datas[fd] = ctx` -/
  | store (ctx : FdCtx)
  /-- `get(fd)` of `fcntl(fd, F_SETFL, flags)`, and its `fcntl_f` -/
  | lookFcntl (flags : BitVec 32)
  | fcntlF (flags : BitVec 32)
  /-- `get(fd)` of `ioctl(fd, FIONBIO, &v)`, and its `ioctl_f` -/
  | lookIoctl (v : Bool)
  | ioctlF (v : Bool)
  /-- `get(fd)` of `close(fd)`, `del(fd)` and its `close_f` -/
  | lookClose
  | del
  | closeF
  deriving DecidableEq, Repr

/-- The phases of a call that makes a context. -/
def Phase.isMaking : Phase → Bool
  | .get | .fstat | .getfl | .initfl _ | .store _ => true
  | _ => false

structure FdCall where
  fd : ℕ
  phase : Phase
  deriving DecidableEq, Repr

structure Sockets where
  files : ℤ → Option File
  fdm : FdManager := {}
  calls : List FdCall := []

/-- A call that comes in, or the next step of the call at `k`. -/
inductive SocketsAct
  /-- `socket_f` has returned `fd`. -/
  | socket (fd : ℕ) (flags : BitVec 32)
  /-- `accept_f(s)` has returned `fd`. -/
  | accept (s fd : ℕ) (flags : BitVec 32)
  | fcntl (fd : ℕ) (flags : BitVec 32)
  | ioctl (fd : ℕ) (v : ℤ)
  | close (fd : ℕ)
  | next (k : ℕ)
  deriving DecidableEq, Repr

/-- The context that `FdCtx::init` makes of a socket. -/
def socketCtx (fd : ℕ) : FdCtx := { isInit := true, isSocket := true, sysNonblock := true, fd := fd }

namespace Sockets

def start (files : ℤ → Option File) : Sockets := { files := files }

variable (s : Sockets)

/-- The calls when the one at hand goes on with another step. -/
def goOn (rest : List FdCall) (c : FdCall) (phase : Phase) : Sockets :=
  { s with calls := { c with phase := phase } :: rest }

/-- `fcntl_f(fd, F_GETFL)`, which is `-1` when the descriptor has been closed meanwhile. -/
def flags (fd : ℤ) : BitVec 32 := ((s.files fd).map File.flags).getD (.ofInt 32 (-1))

/-- A kernel call that changes an open descriptor. -/
def modify (fd : ℤ) (g : File → File) : Sockets :=
  { s with files := Function.update s.files fd ((s.files fd).map g) }

/-- A new socket, and the call that goes on to make its context. -/
def opens (fd : ℕ) (flags : BitVec 32) : Option Sockets :=
  match s.files fd with
  | some _ => none
  | none => some { s with
      files := Function.update s.files fd (some { sock := true, flags := flags })
      calls := { fd := fd, phase := .get } :: s.calls }

/-- The next step of a call. `none` if it ends the process. -/
def advance (rest : List FdCall) (c : FdCall) : Option Sockets :=
  match c.phase with
  | .get =>
      match s.fdm.get c.fd with
      | .error _ => none
      | .ok (some _) => some { s with calls := rest }
      | .ok none => some (s.goOn rest c .fstat)
  | .fstat =>
      match s.files c.fd with
      | none => some (s.goOn rest c (.store { fd := c.fd }))
      | some f =>
          if f.sock then some (s.goOn rest c .getfl)
          else some (s.goOn rest c (.store { isInit := true, fd := c.fd }))
  | .getfl =>
      if isNonblock (s.flags c.fd) then some (s.goOn rest c (.store (socketCtx c.fd)))
      else some (s.goOn rest c (.initfl (s.flags c.fd)))
  | .initfl flags =>
      some ((s.modify c.fd fun f => f.setfl (flags ||| oNonblock)).goOn rest c
        (.store (socketCtx c.fd)))
  | .store ctx =>
      match s.fdm.store c.fd ctx with
      | .error _ => none
      | .ok m => some { s with fdm := m, calls := rest }
  | .lookFcntl flags =>
      match s.fdm.get c.fd with
      | .error _ => none
      | .ok none => some (s.goOn rest c (.fcntlF flags))
      | .ok (some ctx) =>
          if !ctx.isManaged then some (s.goOn rest c (.fcntlF flags))
          else some ({ s with fdm := s.fdm.put c.fd (ctx.setUserNonblock (isNonblock flags)) }.goOn
            rest c (.fcntlF (setNonblock flags ctx.sysNonblock)))
  | .fcntlF flags => some { s.modify c.fd (fun f => f.setfl flags) with calls := rest }
  | .lookIoctl v =>
      match s.fdm.get c.fd with
      | .error _ => none
      | .ok none => some (s.goOn rest c (.ioctlF v))
      | .ok (some ctx) =>
          if ctx.isManaged then
            some ({ s with fdm := s.fdm.put c.fd (ctx.setUserNonblock v) }.goOn rest c (.ioctlF v))
          else some (s.goOn rest c (.ioctlF v))
  | .ioctlF v => some { s.modify c.fd (fun f => f.fionbio v) with calls := rest }
  | .lookClose =>
      match s.fdm.get c.fd with
      | .error _ => none
      | .ok none => some (s.goOn rest c .closeF)
      | .ok (some _) => some (s.goOn rest c .del)
  | .del =>
      match s.fdm.del c.fd with
      | .error _ => none
      | .ok m => some ({ s with fdm := m }.goOn rest c .closeF)
  | .closeF => some { s with files := Function.update s.files c.fd none, calls := rest }

def step : SocketsAct → Option Sockets
  | .socket fd flags => s.opens fd flags
  | .accept l fd flags => if (s.files l).isSome then s.opens fd flags else none
  | .fcntl fd flags => some { s with calls := { fd := fd, phase := .lookFcntl flags } :: s.calls }
  | .ioctl fd v => some { s with calls := { fd := fd, phase := .lookIoctl (v != 0) } :: s.calls }
  | .close fd => some { s with calls := { fd := fd, phase := .lookClose } :: s.calls }
  | .next k => (s.calls[k]?).bind fun c => s.advance (s.calls.eraseIdx k) c

end Sockets

/-- The context says that the socket is non-blocking in the kernel. -/
def Managed (m : FdManager) (fd : ℤ) : Prop :=
  ∃ c, m.entry fd = some c ∧ c.isSocket = true ∧ c.sysNonblock = true

/-- A context of the descriptor is being made. -/
def Making (s : Sockets) (fd : ℕ) : Prop := ∃ c ∈ s.calls, c.fd = fd ∧ c.phase.isMaking = true

/-- **What keeps managed sockets non-blocking.** No call makes a descriptor blocking in the kernel
that is managed or about to be, none is closed that has a context or is about to have one, and the
table stays small enough for an `int`. -/
def Sockets.Allows (s : Sockets) (c : FdCall) : Prop :=
  match c.phase with
  | .fcntlF flags => isNonblock flags = true ∨ ¬Managed s.fdm c.fd ∧ ¬Making s c.fd
  | .ioctlF v => v = true ∨ ¬Managed s.fdm c.fd ∧ ¬Making s c.fd
  | .closeF => s.fdm.entry c.fd = none ∧ ¬Making s c.fd
  | .store _ => c.fd * 3 / 2 < 2 ^ 31
  | _ => True

/-- Steps of calls under way that are allowed. -/
def Orderly (s : Sockets) : SocketsAct → Prop
  | .next k => ∀ c, s.calls[k]? = some c → s.Allows c
  | _ => True

instance (m : FdManager) (fd : ℤ) : Decidable (Managed m fd) :=
  inferInstanceAs (Decidable (∃ c ∈ m.entry fd, c.isSocket = true ∧ c.sysNonblock = true))

instance (s : Sockets) (fd : ℕ) : Decidable (Making s fd) :=
  inferInstanceAs (Decidable (∃ c ∈ s.calls, c.fd = fd ∧ c.phase.isMaking = true))

instance (s : Sockets) (c : FdCall) : Decidable (s.Allows c) :=
  match c with
  | ⟨fd, .fcntlF flags⟩ =>
      inferInstanceAs (Decidable (isNonblock flags = true ∨ ¬Managed s.fdm fd ∧ ¬Making s fd))
  | ⟨fd, .ioctlF v⟩ => inferInstanceAs (Decidable (v = true ∨ ¬Managed s.fdm fd ∧ ¬Making s fd))
  | ⟨fd, .closeF⟩ => inferInstanceAs (Decidable (s.fdm.entry fd = none ∧ ¬Making s fd))
  | ⟨fd, .store _⟩ => inferInstanceAs (Decidable (fd * 3 / 2 < 2 ^ 31))
  | ⟨_, .get⟩ | ⟨_, .fstat⟩ | ⟨_, .getfl⟩ | ⟨_, .initfl _⟩ | ⟨_, .lookFcntl _⟩ | ⟨_, .lookIoctl _⟩
  | ⟨_, .lookClose⟩ | ⟨_, .del⟩ => .isTrue trivial

instance (s : Sockets) (a : SocketsAct) : Decidable (Orderly s a) :=
  match a with
  | .next k => inferInstanceAs (Decidable (∀ c ∈ s.calls[k]?, s.Allows c))
  | .socket .. | .accept .. | .fcntl .. | .ioctl .. | .close .. => .isTrue trivial

/-! ### The invariant -/

/-- What a call under way relies on: the descriptor it makes a context for is open, and non-blocking
once the context says so. -/
def Phase.Fine (file : Option File) (phase : Phase) : Prop :=
  (phase.isMaking = true → file ≠ none) ∧
  ∀ ctx, phase = .store ctx → ctx.isSocket = true → ∃ f, file = some f ∧ isNonblock f.flags = true

namespace Sockets

structure Sound (s : Sockets) : Prop where
  sized : s.fdm.Sized
  nonblock : ∀ fd f, Managed s.fdm fd → s.files fd = some f → isNonblock f.flags = true
  isOpen : ∀ fd, s.fdm.entry fd ≠ none → s.files fd ≠ none
  calls : ∀ c ∈ s.calls, c.phase.Fine (s.files c.fd)

namespace Sound

variable {s : Sockets} {c : FdCall} {k fd : ℕ} {phase : Phase}

lemma fine_of_not_making {file : Option File} (h : phase.isMaking = false) : phase.Fine file := by
  refine ⟨fun hmaking => by simp [h] at hmaking, fun ctx hctx => ?_⟩
  subst hctx
  cases h

lemma fine_of_open {file : Option File} (h : file ≠ none) (hphase : ∀ ctx, phase ≠ .store ctx) :
    phase.Fine file := ⟨fun _ => h, fun ctx hctx => absurd hctx (hphase ctx)⟩

lemma get (h : Sound s) : s.fdm.get fd = .ok (s.fdm.entry fd) := h.sized.get (by omega)

lemma withCalls (h : Sound s) {calls : List FdCall}
    (hcalls : ∀ c ∈ calls, c.phase.Fine (s.files c.fd)) : Sound { s with calls := calls } :=
  ⟨h.sized, h.nonblock, h.isOpen, hcalls⟩

lemma ends (h : Sound s) : Sound { s with calls := s.calls.eraseIdx k } :=
  h.withCalls fun c hc => h.calls c (List.mem_of_mem_eraseIdx hc)

lemma goOn (h : Sound s) (hc : phase.Fine (s.files c.fd)) :
    Sound (s.goOn (s.calls.eraseIdx k) c phase) :=
  h.withCalls fun d hd => by
    rcases List.mem_cons.1 hd with rfl | hd
    · exact hc
    · exact h.calls d (List.mem_of_mem_eraseIdx hd)

/-! ### Changes of one descriptor in the kernel -/

lemma withFile (h : Sound s) {x : Option File}
    (hself : Managed s.fdm fd → ∀ f, x = some f → isNonblock f.flags = true)
    (hopen : s.fdm.entry fd ≠ none → x ≠ none)
    (hcalls : ∀ d ∈ s.calls, d.fd = fd → d.phase.Fine x) :
    Sound { s with files := Function.update s.files fd x } := by
  refine ⟨h.sized, fun fd' f hm hf => ?_, fun fd' hne => ?_, fun d hd => ?_⟩
  · by_cases heq : fd' = fd
    · subst heq
      exact hself hm f (by simpa using hf)
    · exact h.nonblock fd' f hm (by simpa [heq] using hf)
  · by_cases heq : fd' = fd
    · subst heq
      simpa using hopen hne
    · simpa [heq] using h.isOpen fd' hne
  · by_cases heq : d.fd = fd
    · simpa [heq] using hcalls d hd heq
    · have hne : (d.fd : ℤ) ≠ fd := by exact_mod_cast heq
      simpa [hne] using h.calls d hd

/-- **A kernel call that changes a descriptor** keeps it non-blocking, or it is not managed. -/
lemma modify (h : Sound s) {g : File → File} (hg : (∀ f, isNonblock (g f).flags = true) ∨
    ¬Managed s.fdm fd ∧ ¬Making s fd) : Sound (s.modify fd g) := by
  refine h.withFile (fun hm f hf => ?_) (fun hne => by simpa using h.isOpen fd hne) fun d hd heq => ?_
  · obtain ⟨f', -, rfl⟩ := Option.map_eq_some_iff.1 hf
    rcases hg with hg | hg
    · exact hg f'
    · exact absurd hm hg.1
  · subst heq
    have hfine := h.calls d hd
    refine ⟨fun hmaking => by simpa using hfine.1 hmaking, fun ctx hctx hs => ?_⟩
    rcases hg with hg | hg
    · obtain ⟨f, hf, -⟩ := hfine.2 ctx hctx hs
      exact ⟨g f, by simp [hf], hg f⟩
    · exact absurd ⟨d, hd, rfl, by simp [hctx, Phase.isMaking]⟩ hg.2

/-- A descriptor is closed that has no context and gets none. -/
lemma close (h : Sound s) (he : s.fdm.entry fd = none) (hmaking : ¬Making s fd) :
    Sound { s with files := Function.update s.files fd none } := by
  refine h.withFile (fun _ _ hf => by cases hf) (fun hne => absurd he hne) fun d hd heq => ?_
  refine fine_of_not_making ?_
  by_contra hphase
  exact hmaking ⟨d, hd, heq, by simpa using hphase⟩

/-- A new descriptor has no context, and none is being made for it. -/
lemma opens (h : Sound s) {flags : BitVec 32} {s' : Sockets} (hs : s.opens fd flags = some s') :
    Sound s' := by
  unfold Sockets.opens at hs
  split at hs
  · cases hs
  · rename_i hnone
    cases hs
    have hfile : Sound
        { s with files := Function.update s.files fd (some { sock := true, flags := flags }) } := by
      refine h.withFile ?_ (fun _ => by simp) fun d hd heq => ?_
      · rintro ⟨ctx, hctx, -⟩
        exact absurd hnone (h.isOpen fd (by simp [hctx]))
      · subst heq
        exact fine_of_not_making (by
          by_contra hphase
          exact (h.calls d hd).1 (by simpa using hphase) hnone)
    refine hfile.withCalls fun d hd => ?_
    rcases List.mem_cons.1 hd with rfl | hd
    · exact fine_of_open (by simp) (by simp)
    · exact hfile.calls d hd

/-! ### Changes of one entry of the table -/

lemma withTable (h : Sound s) {m : FdManager} (hsized : m.Sized)
    (hothers : ∀ fd' ≠ (fd : ℤ), m.entry fd' = s.fdm.entry fd')
    (hself : Managed m fd → ∀ f, s.files fd = some f → isNonblock f.flags = true)
    (hopen : m.entry fd ≠ none → s.files fd ≠ none) : Sound { s with fdm := m } := by
  refine ⟨hsized, fun fd' f hm hf => ?_, fun fd' he => ?_, h.calls⟩
  · by_cases heq : fd' = fd
    · subst heq
      exact hself hm f hf
    · obtain ⟨c', hc', hkind⟩ := hm
      exact h.nonblock fd' f ⟨c', (hothers fd' heq).symm.trans hc', hkind⟩ hf
  · by_cases heq : fd' = fd
    · subst heq
      exact hopen he
    · exact h.isOpen fd' (hothers fd' heq ▸ he)

lemma put (h : Sound s) {ctx : FdCtx} {v : Bool} (he : s.fdm.entry fd = some ctx) :
    Sound { s with fdm := s.fdm.put fd (ctx.setUserNonblock v) } := by
  have hself : (s.fdm.put fd (ctx.setUserNonblock v)).entry fd = some (ctx.setUserNonblock v) :=
    FdManager.entry_put_self (by simp [he])
  refine h.withTable h.sized.put (fun fd' hne => FdManager.entry_put_of_ne hne (by omega)) ?_ ?_
  · rintro ⟨c', hc', hkind⟩
    cases hself.symm.trans hc'
    exact fun f hf => h.nonblock fd f ⟨ctx, he, hkind⟩ hf
  · exact fun _ => h.isOpen fd (by simp [he])

/-- A context is stored, by a call that has made the descriptor non-blocking if it is a socket. -/
lemma store (h : Sound s) {ctx : FdCtx} (hfine : (Phase.store ctx).Fine (s.files fd))
    (hroom : fd * 3 / 2 < 2 ^ 31) : ∃ m, s.fdm.store fd ctx = .ok m ∧ Sound { s with fdm := m } := by
  obtain ⟨m, hm, hsized, hself, hothers⟩ :=
    h.sized.store (c := ctx) (show (0 : ℤ) ≤ fd by omega) fun _ => by simpa using hroom
  refine ⟨m, hm, ?_⟩
  refine h.withTable hsized hothers ?_ fun _ => hfine.1 rfl
  rintro ⟨c', hc', hsock, -⟩ f hf
  cases hself.symm.trans hc'
  obtain ⟨f', hf', hnonblock⟩ := hfine.2 ctx rfl hsock
  cases hf'.symm.trans hf
  exact hnonblock

lemma del (h : Sound s) (fd : ℕ) : ∃ m, s.fdm.del fd = .ok m ∧ Sound { s with fdm := m } := by
  obtain ⟨m, hm, hsized, hself, hothers⟩ := h.sized.del (show (0 : ℤ) ≤ fd by omega)
  refine ⟨m, hm, ?_⟩
  refine h.withTable hsized hothers ?_ fun hne => absurd hself hne
  rintro ⟨c', hc', -⟩
  cases hself.symm.trans hc'

/-! ### Steps -/

section Advance

variable {s' : Sockets} (h : Sound s) (hk : s.calls[k]? = some c)
  (hs : s.advance (s.calls.eraseIdx k) c = some s')

include h hk hs

lemma advance_making (hphase : c.phase.isMaking = true) (hallows : s.Allows c) : Sound s' := by
  have hfine := h.calls c (List.mem_of_getElem? hk)
  obtain ⟨f, hf⟩ := Option.ne_none_iff_exists'.1 (hfine.1 hphase)
  have hopen : s.files c.fd ≠ none := by simp [hf]
  unfold Sockets.advance at hs
  cases hp : c.phase with
  | get =>
      simp only [hp, h.get] at hs
      cases he : s.fdm.entry c.fd with
      | some ctx =>
          rw [he] at hs
          cases hs
          exact h.ends
      | none =>
          rw [he] at hs
          cases hs
          exact h.goOn (fine_of_open hopen (by simp))
  | fstat =>
      simp only [hp, hf] at hs
      split at hs
      · cases hs
        exact h.goOn (fine_of_open hopen (by simp))
      · cases hs
        refine h.goOn ⟨fun _ => hopen, fun ctx hctx hsock => ?_⟩
        cases hctx
        cases hsock
  | getfl =>
      have hflags : s.flags c.fd = f.flags := by simp [Sockets.flags, hf]
      simp only [hp, hflags] at hs
      split at hs
      · rename_i hnonblock
        cases hs
        exact h.goOn ⟨fun _ => hopen, fun _ _ _ => ⟨f, hf, hnonblock⟩⟩
      · cases hs
        exact h.goOn (fine_of_open hopen (by simp))
  | initfl flags =>
      simp only [hp] at hs
      cases hs
      have hset : ∀ f : File, isNonblock (f.setfl (flags ||| oNonblock)).flags = true := fun f => by
        rw [File.isNonblock_setfl]
        exact isNonblock_setNonblock (v := true)
      refine (h.modify (.inl hset)).goOn ⟨fun _ => ?_, fun _ _ _ => ⟨_, ?_, hset f⟩⟩
      · simp [Sockets.modify, hf]
      · simp [Sockets.modify, hf]
  | store ctx =>
      simp only [Sockets.Allows, hp] at hallows
      obtain ⟨m, hm, hsound⟩ := h.store (hp ▸ hfine) hallows
      simp only [hp, hm] at hs
      cases hs
      exact hsound.ends
  | lookFcntl | fcntlF | lookIoctl | ioctlF | lookClose | del | closeF =>
      simp [hp, Phase.isMaking] at hphase

omit hk in
lemma advance_other (hphase : c.phase.isMaking = false) (hallows : s.Allows c) : Sound s' := by
  unfold Sockets.advance at hs
  unfold Sockets.Allows at hallows
  cases hp : c.phase with
  | get | fstat | getfl | initfl | store => simp [hp, Phase.isMaking] at hphase
  | lookFcntl flags =>
      simp only [hp, h.get] at hs
      cases he : s.fdm.entry c.fd with
      | none =>
          rw [he] at hs
          cases hs
          exact h.goOn (fine_of_not_making rfl)
      | some ctx =>
          simp only [he] at hs
          split at hs
          · cases hs
            exact h.goOn (fine_of_not_making rfl)
          · cases hs
            exact (h.put he).goOn (fine_of_not_making rfl)
  | lookIoctl v =>
      simp only [hp, h.get] at hs
      cases he : s.fdm.entry c.fd with
      | none =>
          rw [he] at hs
          cases hs
          exact h.goOn (fine_of_not_making rfl)
      | some ctx =>
          simp only [he] at hs
          split at hs
          · cases hs
            exact (h.put he).goOn (fine_of_not_making rfl)
          · cases hs
            exact h.goOn (fine_of_not_making rfl)
  | lookClose =>
      simp only [hp, h.get] at hs
      cases he : s.fdm.entry c.fd <;> rw [he] at hs <;> cases hs <;>
        exact h.goOn (fine_of_not_making rfl)
  | fcntlF flags =>
      simp only [hp] at hs hallows
      cases hs
      exact (h.modify (hallows.imp_left fun hset f => by simpa using hset)).ends
  | ioctlF v =>
      simp only [hp] at hs hallows
      cases hs
      exact (h.modify (hallows.imp_left fun hset f => by simpa using hset)).ends
  | del =>
      obtain ⟨m, hm, hsound⟩ := h.del c.fd
      simp only [hp, hm] at hs
      cases hs
      exact hsound.goOn (fine_of_not_making rfl)
  | closeF =>
      simp only [hp] at hs hallows
      cases hs
      exact (h.close hallows.1 hallows.2).ends

end Advance

lemma begins (h : Sound s) (hc : c.phase.isMaking = false) : Sound { s with calls := c :: s.calls } :=
  h.withCalls fun d hd => by
    rcases List.mem_cons.1 hd with rfl | hd
    · exact fine_of_not_making hc
    · exact h.calls d hd

/-- **Every admitted step keeps the invariant.** -/
theorem step (h : Sound s) {s' : Sockets} {a : SocketsAct} (hg : Orderly s a)
    (hs : s.step a = some s') : Sound s' := by
  cases a with
  | socket => exact h.opens hs
  | accept =>
      simp only [Sockets.step] at hs
      split at hs
      · exact h.opens hs
      · cases hs
  | fcntl | ioctl | close =>
      cases hs
      exact h.begins rfl
  | next k =>
      obtain ⟨c, hk, hs⟩ := Option.bind_eq_some_iff.1 hs
      cases hphase : c.phase.isMaking with
      | true => exact h.advance_making hk hs hphase (hg c hk)
      | false => exact h.advance_other hs hphase (hg c hk)

theorem start {files : ℤ → Option File} : Sound (Sockets.start files) where
  sized := FdManager.sized_constructed
  nonblock fd f hm := by
    obtain ⟨c, hc, -⟩ := hm
    cases FdManager.entry_constructed.symm.trans hc
  isOpen fd hne := absurd FdManager.entry_constructed hne
  calls c hc := absurd hc List.not_mem_nil

end Sound

end Sockets

/-! ### A call that runs alone

When no other call is under way, the steps of a call are the hooked function of `Hook.Calls` against a
kernel in which nothing fails. -/

section Alone

variable {t : Thread} {w w' : State Kernel} {v : ℤ} {fuel fd : ℕ}

/-- What the machine has of a process. -/
def socketsOf (w : State Kernel) : Sockets := { files := w.out.files, fdm := w.loc.fdm }

/-- The steps that the calls of the machine take when nothing comes in between. -/
def alone (s : Sockets) (as : List SocketsAct) : Option Sockets :=
  run Sockets.step (fun _ _ => true) s as

section Steps

variable {s s' : Sockets} {c : FdCall} {as : List SocketsAct} {rest : List FdCall}
  {o : Option FdCtx} {ctx : FdCtx} {flags : BitVec 32} {b : Bool}

lemma alone_cons {a : SocketsAct} {r : Option Sockets} (h : s.step a = some s')
    (hrest : alone s' as = r) : alone s (a :: as) = r := by
  simp only [alone, run, if_true, h, Option.bind_some]
  exact hrest

lemma alone_next {r : Option Sockets} (hc : s.calls = [c]) (h : s.advance [] c = some s')
    (hrest : alone s' as = r) : alone s (.next 0 :: as) = r := by
  refine alone_cons ?_ hrest
  simp only [Sockets.step, hc, List.getElem?_cons_zero, Option.bind_some, List.eraseIdx_cons_zero, h]

lemma advance_lookFcntl_passed (hget : s.fdm.get fd = .ok o)
    (ho : ∀ c, o = some c → c.isManaged = false) :
    s.advance rest ⟨fd, .lookFcntl flags⟩ =
      some (s.goOn rest ⟨fd, .lookFcntl flags⟩ (.fcntlF flags)) := by
  cases o with
  | none => simp only [Sockets.advance, hget]
  | some ctx => simp only [Sockets.advance, hget, ho ctx rfl, Bool.not_false, if_true]

lemma advance_lookFcntl_managed (hget : s.fdm.get fd = .ok (some ctx)) (hc : ctx.isManaged = true) :
    s.advance rest ⟨fd, .lookFcntl flags⟩ =
      some ({ s with fdm := s.fdm.put fd (ctx.setUserNonblock (isNonblock flags)) }.goOn rest
        ⟨fd, .lookFcntl flags⟩ (.fcntlF (setNonblock flags ctx.sysNonblock))) := by
  simp only [Sockets.advance, hget, hc, Bool.not_true, Bool.false_eq_true, if_false]

lemma advance_lookIoctl_passed (hget : s.fdm.get fd = .ok o)
    (ho : ∀ c, o = some c → c.isManaged = false) :
    s.advance rest ⟨fd, .lookIoctl b⟩ = some (s.goOn rest ⟨fd, .lookIoctl b⟩ (.ioctlF b)) := by
  cases o with
  | none => simp only [Sockets.advance, hget]
  | some ctx => simp only [Sockets.advance, hget, ho ctx rfl, Bool.false_eq_true, if_false]

lemma advance_lookIoctl_managed (hget : s.fdm.get fd = .ok (some ctx)) (hc : ctx.isManaged = true) :
    s.advance rest ⟨fd, .lookIoctl b⟩ =
      some ({ s with fdm := s.fdm.put fd (ctx.setUserNonblock b) }.goOn rest ⟨fd, .lookIoctl b⟩
        (.ioctlF b)) := by
  simp only [Sockets.advance, hget, hc, if_true]

lemma advance_lookClose_none (hget : s.fdm.get fd = .ok none) :
    s.advance rest ⟨fd, .lookClose⟩ = some (s.goOn rest ⟨fd, .lookClose⟩ .closeF) := by
  simp only [Sockets.advance, hget]

lemma advance_lookClose_some (hget : s.fdm.get fd = .ok (some ctx)) :
    s.advance rest ⟨fd, .lookClose⟩ = some (s.goOn rest ⟨fd, .lookClose⟩ .del) := by
  simp only [Sockets.advance, hget]

lemma advance_del {m : FdManager} (hdel : s.fdm.del fd = .ok m) :
    s.advance rest ⟨fd, .del⟩ = some ({ s with fdm := m }.goOn rest ⟨fd, .del⟩ .closeF) := by
  simp only [Sockets.advance, hdel]

lemma advance_get_none (hget : s.fdm.get fd = .ok none) :
    s.advance rest ⟨fd, .get⟩ = some (s.goOn rest ⟨fd, .get⟩ .fstat) := by
  simp only [Sockets.advance, hget]

lemma advance_get_some (hget : s.fdm.get fd = .ok (some ctx)) :
    s.advance rest ⟨fd, .get⟩ = some { s with calls := rest } := by
  simp only [Sockets.advance, hget]

lemma advance_fstat_other {f : File} (hf : s.files fd = some f) (hsock : f.sock = false) :
    s.advance rest ⟨fd, .fstat⟩ =
      some (s.goOn rest ⟨fd, .fstat⟩ (.store { isInit := true, fd := fd })) := by
  simp only [Sockets.advance, hf, hsock, Bool.false_eq_true, if_false]

lemma advance_fstat_socket {f : File} (hf : s.files fd = some f) (hsock : f.sock = true) :
    s.advance rest ⟨fd, .fstat⟩ = some (s.goOn rest ⟨fd, .fstat⟩ .getfl) := by
  simp only [Sockets.advance, hf, hsock, if_true]

lemma advance_getfl_nonblock {f : File} (hf : s.files fd = some f) (hb : isNonblock f.flags = true) :
    s.advance rest ⟨fd, .getfl⟩ = some (s.goOn rest ⟨fd, .getfl⟩ (.store (socketCtx fd))) := by
  simp only [Sockets.advance, Sockets.flags, hf, Option.map_some, Option.getD_some, hb, if_true]

lemma advance_getfl_block {f : File} (hf : s.files fd = some f) (hb : isNonblock f.flags = false) :
    s.advance rest ⟨fd, .getfl⟩ = some (s.goOn rest ⟨fd, .getfl⟩ (.initfl f.flags)) := by
  simp only [Sockets.advance, Sockets.flags, hf, Option.map_some, Option.getD_some, hb,
    Bool.false_eq_true, if_false]

lemma advance_store {m : FdManager} (hstore : s.fdm.store fd ctx = .ok m) :
    s.advance rest ⟨fd, .store ctx⟩ = some { s with fdm := m, calls := rest } := by
  simp only [Sockets.advance, hstore]

end Steps

variable (hfails : w.out.fails = fun _ => none) (hsized : w.loc.fdm.Sized)

include hfails hsized

lemma fcntl_alone {flags : BitVec 32}
    (h : hook kernel t fuel (.fcntl fd (.setfl flags)) w = .ok (v, w')) :
    alone (socketsOf w) [.fcntl fd flags, .next 0, .next 0] = some (socketsOf w') := by
  have hget : w.loc.fdm.get fd = .ok (w.loc.fdm.entry fd) := hsized.get (by omega)
  have hfail : w.out.fails .setfl = none := by rw [hfails]
  refine alone_cons rfl ?_
  by_cases hm : ∃ c, w.loc.fdm.entry fd = some c ∧ c.isManaged
  · obtain ⟨c, he, hc⟩ := hm
    rw [he] at hget
    cases (fcntl_setfl_managed hget hc).symm.trans h
    refine alone_next rfl (advance_lookFcntl_managed hget hc) ?_
    refine alone_next rfl rfl ?_
    simp only [alone, run, socketsOf, kernel_answer, Kernel.respond, Kernel.modify_files hfail,
      Sockets.modify, Sockets.goOn]
  · have hno : ∀ c, w.loc.fdm.entry fd = some c → c.isManaged = false := fun c hc => by
      simpa using fun hmanaged => hm ⟨c, hc, hmanaged⟩
    cases (fcntl_setfl_passed hget hno).symm.trans h
    refine alone_next rfl (advance_lookFcntl_passed hget hno) ?_
    refine alone_next rfl rfl ?_
    simp only [alone, run, socketsOf, kernel_answer, Kernel.respond, Kernel.modify_files hfail,
      Sockets.modify, Sockets.goOn]

lemma ioctl_alone {arg : Ptr} (h : hook kernel t fuel (.ioctl fd FIONBIO arg) w = .ok (v, w')) :
    alone (socketsOf w) [.ioctl fd (w.out.ints arg), .next 0, .next 0] = some (socketsOf w') := by
  have hget : w.loc.fdm.get fd = .ok (w.loc.fdm.entry fd) := hsized.get (by omega)
  have hfail : w.out.fails .ioctl = none := by rw [hfails]
  refine alone_cons rfl ?_
  by_cases hm : ∃ c, w.loc.fdm.entry fd = some c ∧ c.isManaged
  · obtain ⟨c, he, hc⟩ := hm
    rw [he] at hget
    cases (ioctl_managed rfl hget hc).symm.trans h
    refine alone_next rfl (advance_lookIoctl_managed hget hc) ?_
    refine alone_next rfl rfl ?_
    simp [alone, run, socketsOf, Kernel.respond, Kernel.modify_files hfail, Sockets.modify,
      Sockets.goOn]
  · have hno : ∀ c, w.loc.fdm.entry fd = some c → c.isManaged = false := fun c hc => by
      simpa using fun hmanaged => hm ⟨c, hc, hmanaged⟩
    cases (ioctl_passed hget hno rfl).symm.trans h
    refine alone_next rfl (advance_lookIoctl_passed hget hno) ?_
    refine alone_next rfl rfl ?_
    simp [alone, run, socketsOf, Kernel.respond, Kernel.modify_files hfail, Sockets.modify,
      Sockets.goOn]

lemma close_alone (ht : t.hooked = true) (h : hook kernel t fuel (.close fd) w = .ok (v, w')) :
    ∃ as, alone (socketsOf w) (.close fd :: .next 0 :: as) = some (socketsOf w') := by
  have hget : w.loc.fdm.get fd = .ok (w.loc.fdm.entry fd) := hsized.get (by omega)
  have hfail : w.out.fails .close = none := by rw [hfails]
  cases he : w.loc.fdm.entry fd with
  | none =>
      rw [he] at hget
      cases (close_of_none hget).symm.trans h
      refine ⟨[.next 0], alone_cons rfl ?_⟩
      refine alone_next rfl (advance_lookClose_none hget) ?_
      refine alone_next rfl rfl ?_
      simp [alone, run, socketsOf, Sockets.goOn, Kernel.close_files hfail]
  | some c =>
      rw [he] at hget
      obtain ⟨m, hdel, -⟩ := hsized.del (show (0 : ℤ) ≤ fd by omega)
      cases (close_of_some ht hget hdel).symm.trans h
      have hout : (cancelledAll kernel t fd w).out = w.out := by
        unfold cancelledAll
        split <;> rfl
      refine ⟨[.next 0, .next 0], alone_cons rfl ?_⟩
      refine alone_next rfl (advance_lookClose_some hget) ?_
      refine alone_next rfl (advance_del hdel) ?_
      refine alone_next rfl rfl ?_
      simp [alone, run, socketsOf, Sockets.goOn, hout, Kernel.close_files hfail]

lemma make_alone {f : File} (hf : w.out.files fd = some f)
    (h : fdGetCreate kernel fd w = .ok ((), w')) :
    ∃ as, alone { socketsOf w with calls := [⟨fd, .get⟩] } as = some (socketsOf w') := by
  have hget : w.loc.fdm.get fd = .ok (w.loc.fdm.entry fd) := hsized.get (by omega)
  cases he : w.loc.fdm.entry fd with
  | some c =>
      rw [he] at hget
      cases (fdGetCreate_of_some hget).symm.trans h
      exact ⟨[.next 0], alone_next rfl (advance_get_some hget) rfl⟩
  | none =>
      rw [he] at hget
      rw [fdGetCreate_of_none (by omega) hget, fdCreate_apply,
        initCtx_kernel hf (by rw [hfails])] at h
      have hinit := initWorld_files hf hfails
      obtain ⟨m, hstore, heq⟩ := map_eq_ok.1 h
      cases heq
      cases hsock : f.sock with
      | false =>
          rw [hsock] at hinit hstore
          refine ⟨[.next 0, .next 0, .next 0], ?_⟩
          refine alone_next rfl (advance_get_none hget) ?_
          refine alone_next rfl (advance_fstat_other hf hsock) ?_
          refine alone_next rfl (advance_store hstore) ?_
          simp [alone, run, socketsOf, Sockets.goOn, madeWorld, hinit]
      | true =>
          rw [hsock] at hinit hstore
          cases hblock : isNonblock f.flags with
          | true =>
              refine ⟨[.next 0, .next 0, .next 0, .next 0], ?_⟩
              refine alone_next rfl (advance_get_none hget) ?_
              refine alone_next rfl (advance_fstat_socket hf hsock) ?_
              refine alone_next rfl (advance_getfl_nonblock hf hblock) ?_
              refine alone_next rfl (advance_store hstore) ?_
              simp [alone, run, socketsOf, Sockets.goOn, madeWorld, hinit, hblock]
          | false =>
              refine ⟨[.next 0, .next 0, .next 0, .next 0, .next 0], ?_⟩
              refine alone_next rfl (advance_get_none hget) ?_
              refine alone_next rfl (advance_fstat_socket hf hsock) ?_
              refine alone_next rfl (advance_getfl_block hf hblock) ?_
              refine alone_next rfl rfl ?_
              refine alone_next rfl (advance_store hstore) ?_
              simp [alone, run, socketsOf, Sockets.goOn, Sockets.modify, madeWorld, hinit, hblock,
                hf]

lemma open_alone {q : Request} {flags : BitVec 32} {a : SocketsAct}
    (hnone : w.out.files w.out.fresh = none)
    (hq : w.out.respond q = w.out.opens flags)
    (ha : (socketsOf w).step a = (socketsOf w).opens w.out.fresh flags)
    (h : fdGetCreate kernel w.out.fresh (answered kernel q w) = .ok ((), w')) :
    ∃ as, alone (socketsOf w) as = some (socketsOf w') := by
  have hout : (answered kernel q w).out =
      w.out.put w.out.fresh (some { sock := true, flags := flags }) := by
    rw [answered_out, kernel_answer, hq, Kernel.opens_of_unused hnone]
  have hfiles : (answered kernel q w).out.files =
      Function.update w.out.files w.out.fresh (some { sock := true, flags := flags }) := by
    rw [hout]
    rfl
  have hfails' : (answered kernel q w).out.fails = fun _ => none := by
    rw [hout]
    exact hfails
  have hfile : (answered kernel q w).out.files w.out.fresh = some { sock := true, flags := flags } := by
    rw [hfiles, Function.update_self]
  obtain ⟨as, has⟩ := make_alone (w := answered kernel q w) hfails' hsized hfile h
  have hstep : (socketsOf w).step a =
      some { socketsOf (answered kernel q w) with calls := [⟨w.out.fresh, .get⟩] } := by
    rw [ha]
    simp only [Sockets.opens, socketsOf, hnone, hfiles, answered_fdm]
  exact ⟨a :: as, alone_cons hstep has⟩

lemma socket_alone {domain type protocol : ℤ} (ht : t.hooked = true)
    (h : hook kernel t fuel (.socket domain type protocol) w = .ok (v, w')) :
    ∃ as, alone (socketsOf w) as = some (socketsOf w') := by
  have hq : w.out.respond (.sys (.socket domain type protocol)) =
      w.out.opens (oRdwr ||| .ofInt 32 type &&& oNonblock) :=
    Kernel.attempt_of_none (by rw [hfails])
  change socket kernel t domain type protocol w = _ at h
  cases hfile : w.out.files w.out.fresh with
  | some f =>
      have hanswer := hq.trans (Kernel.opens_of_used hfile)
      cases (socket_of_fail (by rw [kernel_answer, hanswer]) ht rfl).symm.trans h
      exact ⟨[], by simp [alone, run, socketsOf, hanswer]⟩
  | none =>
      have hanswer := hq.trans (Kernel.opens_of_unused hfile)
      have hvalue : (kernel.answer w.out (.sys (.socket domain type protocol))).1.value =
          w.out.fresh := by rw [kernel_answer, hanswer]
      rw [socket_of_success hvalue ht (by omega)] at h
      obtain ⟨x, hmake, heq⟩ := map_eq_ok.1 h
      cases heq
      have hstep : ∀ flags, (socketsOf w).step (.socket w.out.fresh flags) =
          (socketsOf w).opens w.out.fresh flags := fun _ => rfl
      exact open_alone hfails hsized hfile hq (hstep _) hmake

lemma accept_alone {addr addrlen : Ptr}
    (h : hook kernel t fuel (.accept fd addr addrlen) w = .ok (v, w')) :
    ∃ as, alone (socketsOf w) as = some (socketsOf w') := by
  have hq : w.out.respond (.sys (.accept fd addr addrlen)) =
      w.out.onFile fd fun _ => w.out.opens oRdwr := Kernel.attempt_of_none (by rw [hfails])
  change accept kernel t fuel fd addr addrlen w = _ at h
  cases hio : doIo kernel t fuel fd (.accept fd addr addrlen) .read .recv w with
  | error e => simp [accept, hio] at h
  | ok x =>
    obtain ⟨r, w₁⟩ := x
    -- a call that fails leaves the descriptors and the table
    have hfailed : r = -1 → w₁.out = w.out → w₁.loc.fdm = w.loc.fdm →
        ∃ as, alone (socketsOf w) as = some (socketsOf w') := by
      intro hr hout hfdm
      cases (accept_of_neg hio (by omega)).symm.trans h
      exact ⟨[], by simp [alone, run, socketsOf, hout, hfdm]⟩
    cases hs : w.out.files fd with
    | none =>
        rw [Kernel.onFile, hs] at hq
        rcases doIo_final (by simp [hq, EBADF, EINTR, EAGAIN]) hio with hsys | ⟨hr, rfl⟩
        · cases hsys
          exact hfailed (by simp [hq]) (by simp [hq]) rfl
        · exact hfailed hr rfl rfl
    | some l =>
        rw [Kernel.onFile, hs] at hq
        cases hfile : w.out.files w.out.fresh with
        | some f =>
            have hanswer := hq.trans (Kernel.opens_of_used hfile)
            rcases doIo_final (by simp [hanswer, EMFILE, EINTR, EAGAIN]) hio with hsys | ⟨hr, rfl⟩
            · cases hsys
              exact hfailed (by simp [hanswer]) (by simp [hanswer]) rfl
            · exact hfailed hr rfl rfl
        | none =>
            have hanswer := hq.trans (Kernel.opens_of_unused hfile)
            rcases doIo_final (by simp [hanswer]) hio with hsys | ⟨hr, rfl⟩
            · have hvalue : r = w.out.fresh := by
                cases hsys
                simp [hanswer]
              obtain rfl : answered kernel (.sys (.accept fd addr addrlen)) w = w₁ := by
                cases hsys
                rfl
              subst hvalue
              rw [accept_of_success hio (by omega)] at h
              obtain ⟨x, hmake, heq⟩ := map_eq_ok.1 h
              cases heq
              exact open_alone hfails hsized hfile hq (a := .accept fd w.out.fresh oRdwr)
                (by simp [Sockets.step, socketsOf, hs]) hmake
            · exact hfailed hr rfl rfl

/-- The hooked calls of the machine. -/
inductive SocketsCall : Sys → Prop
  | socket (domain type protocol : ℤ) : SocketsCall (.socket domain type protocol)
  | accept (s : ℕ) (addr addrlen : Ptr) : SocketsCall (.accept s addr addrlen)
  | setfl (fd : ℕ) (flags : BitVec 32) : SocketsCall (.fcntl fd (.setfl flags))
  | fionbio (fd : ℕ) (arg : Ptr) : SocketsCall (.ioctl fd FIONBIO arg)
  | close (fd : ℕ) : SocketsCall (.close fd)

/-- **The machine has every hooked call**: what a call does to the descriptors and to the table when
no other call comes in between, the steps of the machine do. -/
theorem hook_alone (ht : t.hooked = true) {c : Sys} (hc : SocketsCall c)
    (h : hook kernel t fuel c w = .ok (v, w')) :
    ∃ as, alone (socketsOf w) as = some (socketsOf w') := by
  cases hc with
  | socket => exact socket_alone hfails hsized ht h
  | accept => exact accept_alone hfails hsized h
  | setfl => exact ⟨_, fcntl_alone hfails hsized h⟩
  | fionbio => exact ⟨_, ioctl_alone hfails hsized h⟩
  | close =>
      obtain ⟨as, has⟩ := close_alone hfails hsized ht h
      exact ⟨_, has⟩

end Alone

/-- **Managed sockets stay non-blocking**: in a run whose steps are all allowed, from any descriptors
open at the start, every open descriptor whose context is that of a socket with `m_sysNonblock` has
`O_NONBLOCK` in the kernel. -/
theorem sockets_nonblocking (files₀ : ℤ → Option File) (s : Sockets)
    (h : Reach Sockets.step Orderly (Sockets.start files₀) s) (fd : ℤ) (c : FdCtx) (f : File)
    (hc : s.fdm.entry fd = some c) (hsock : c.isSocket = true) (hsys : c.sysNonblock = true)
    (hf : s.files fd = some f) : isNonblock f.flags = true := by
  have hsound : s.Sound := h.inv Sockets.Sound.start fun _ hx hg hs => hx.step hg hs
  exact hsound.nonblock fd f ⟨c, hc, hsock, hsys⟩ hf

theorem sockets_nonblocking_setfl : ∃ s : Sockets, s.fdm.entry 3 = some (socketCtx 3) ∧
    ∃ f, s.files 3 = some f ∧ isNonblock f.flags = true := by
  have h : (run Sockets.step (fun s a => decide (Orderly s a)) (Sockets.start fun _ => none)
      [.socket 3 2, .next 0, .next 0, .next 0, .next 0, .next 0, .fcntl 3 0, .next 0, .next 0]).any
      (fun s => s.fdm.entry 3 == some (socketCtx 3) && s.files 3 == some ⟨true, 0x802⟩) = true := by
    decide +kernel
  obtain ⟨s, hr, hs⟩ := exists_reach_of_run (fun _ _ => of_decide_eq_true) h
  simp only [Bool.and_eq_true, beq_iff_eq] at hs
  exact ⟨s, hs.1, _, hs.2, sockets_nonblocking _ s hr 3 _ _ hs.1 rfl rfl hs.2⟩

/-- **`FIONBIO` makes a managed socket blocking**: `ioctl` passes the user's 0 on to the kernel. -/
theorem made_blocking : ∃ s : Sockets, Reach Sockets.step Free (Sockets.start fun _ => none) s ∧
    s.fdm.entry 3 = some (socketCtx 3) ∧ s.files 3 = some ⟨true, 0x2⟩ ∧
    isNonblock 0x2 = false := by
  have h : (run Sockets.step (fun _ _ => true) (Sockets.start fun _ => none)
      [.socket 3 2, .next 0, .next 0, .next 0, .next 0, .next 0, .ioctl 3 0, .next 0, .next 0]).any
      (fun s => s.fdm.entry 3 == some (socketCtx 3) && s.files 3 == some ⟨true, 0x2⟩) = true := by
    decide +kernel
  obtain ⟨s, hr, hs⟩ := exists_reach_of_run (G := Free) (fun _ _ _ => trivial) h
  simp only [Bool.and_eq_true, beq_iff_eq] at hs
  exact ⟨s, hr, hs.1, hs.2, by decide⟩

end Eva01.Hook
