import Eva01.Hook.Kernel
import Eva01.Lib.Runs

/-!
The blocking mode as the user sees it.

A managed socket is non-blocking in the kernel, and `m_userNonblock` holds the mode that the user has
asked for. `F_GETFL` puts it in the place of the kernel's bit, and `do_io` waits by it. So the user
should see a kernel without the hook. Two kernels run side by side: one behind the hooked calls, one
that gets the same calls directly, with the same descriptors handed out and the same calls failing.
`seen` is the first kernel as the user sees it, and it is to be the second one.
-/

namespace Eva01.Hook

open Eva01.Lib Eva01.Lib.Interact Eva01.Lib.Runs

/-! ### The two kernels -/

/-- The calls about the mode. -/
inductive ModeCall
  | socket (domain type protocol : ℤ)
  | setfl (fd : ℕ) (flags : BitVec 32)
  | getfl (fd : ℕ)
  | fionbio (fd : ℕ) (arg : Ptr)
  deriving DecidableEq, Repr

def ModeCall.sys : ModeCall → Sys
  | .socket domain type protocol => .socket domain type protocol
  | .setfl fd flags => .fcntl fd (.setfl flags)
  | .getfl fd => .fcntl fd .getfl
  | .fionbio fd arg => .ioctl fd FIONBIO arg

/-- A call, with what the kernel is about to do: the descriptor it would return, the calls that fail
(`FdCtx::init` makes some of its own), and what the user's pointers point to. -/
structure ModeAct where
  call : ModeCall
  fresh : ℕ := 0
  fails : Kind → Option ℤ := fun _ => none
  ints : Ptr → ℤ := fun _ => 0

def ModeAct.prepare (a : ModeAct) (k : Kernel) : Kernel :=
  { files := k.files, fresh := a.fresh, fails := a.fails, ints := a.ints }

/-- The process with the hook, the kernel without it, and what each call has returned in both. -/
structure Duo where
  hooked : State Kernel
  plain : Kernel
  results : List (ℤ × ℤ)

/-- The table as constructed, and any descriptors open. -/
def Duo.start (files : ℤ → Option File) : Duo where
  hooked := { out := { files := files }, loc := {} }
  plain := { files := files }
  results := []

def Duo.step (t : Thread) (s : Duo) (a : ModeAct) : Option Duo :=
  match hook kernel t 0 a.call.sys { s.hooked with out := a.prepare s.hooked.out } with
  | .error _ => none
  | .ok (v, w) =>
      let r := (a.prepare s.plain).respond (.sys a.call.sys)
      some { hooked := w, plain := r.2, results := s.results ++ [(v, r.1.value)] }

/-- **The steps in which the user's view is kept.** A socket is made blocking, and with a context
that knows that it is a socket; a call that fails to set the mode asks for the mode that is there;
`F_GETFL` does not fail while the mode is blocking. -/
def Faithful (s : Duo) (a : ModeAct) : Prop :=
  match a.call with
  | .socket _ type _ => a.fails .socket = none →
      isNonblock (.ofInt 32 type) = false ∧ a.fails .fstat = none ∧ a.fresh * 3 / 2 < 2 ^ 31
  | .setfl fd flags => ∀ c, s.hooked.loc.fdm.entry fd = some c →
      a.fails .setfl ≠ none → c.userNonblock = isNonblock flags
  | .getfl fd => ∀ c, s.hooked.loc.fdm.entry fd = some c →
      a.fails .getfl ≠ none → c.userNonblock = true
  | .fionbio fd arg => ∀ c, s.hooked.loc.fdm.entry fd = some c →
      a.fails .ioctl ≠ none → c.userNonblock = (a.ints arg != 0)

instance (s : Duo) (a : ModeAct) : Decidable (Faithful s a) :=
  match a with
  | ⟨.socket _ type _, fresh, fails, _⟩ => inferInstanceAs (Decidable (fails .socket = none →
      isNonblock (.ofInt 32 type) = false ∧ fails .fstat = none ∧ fresh * 3 / 2 < 2 ^ 31))
  | ⟨.setfl fd flags, _, fails, _⟩ => inferInstanceAs (Decidable (∀ c ∈ s.hooked.loc.fdm.entry fd,
      fails .setfl ≠ none → c.userNonblock = isNonblock flags))
  | ⟨.getfl fd, _, fails, _⟩ => inferInstanceAs (Decidable (∀ c ∈ s.hooked.loc.fdm.entry fd,
      fails .getfl ≠ none → c.userNonblock = true))
  | ⟨.fionbio fd arg, _, fails, ints⟩ => inferInstanceAs (Decidable
      (∀ c ∈ s.hooked.loc.fdm.entry fd, fails .ioctl ≠ none → c.userNonblock = (ints arg != 0)))

/-! ### What the user sees -/

/-- An open descriptor, with the mode that the user has asked for. -/
def seenFile (e : Option FdCtx) (f : File) : File :=
  match e with
  | none => f
  | some c => { f with flags := setNonblock f.flags c.userNonblock }

def seen (m : FdManager) (files : ℤ → Option File) (fd : ℤ) : Option File :=
  (files fd).map (seenFile (m.entry fd))

section Seen

variable {f : File} {c c' : FdCtx} {flags : BitVec 32} {v : Bool}

/-- `F_SETFL` of a managed socket, with `O_NONBLOCK` added, is `F_SETFL` for the user. -/
lemma seenFile_setfl : seenFile (some (c'.setUserNonblock (isNonblock flags)))
    (f.setfl (setNonblock flags true)) = (seenFile (some c) f).setfl flags := by
  refine File.ext rfl (BitVec.eq_of_getLsbD_eq fun i hi => ?_)
  simp only [seenFile, FdCtx.setUserNonblock, getLsbD_setNonblock hi, File.getLsbD_setfl hi]
  by_cases h : i = 11
  · subst h
    rw [if_pos rfl, if_pos (by decide), isNonblock_eq]
  · simp only [if_neg h]

lemma seenFile_fionbio : seenFile (some (c'.setUserNonblock v)) (f.fionbio v) =
    (seenFile (some c) f).fionbio v := by
  simp [seenFile, FdCtx.setUserNonblock, File.fionbio]

lemma seenFile_init : seenFile (some c) (f.setfl (setNonblock f.flags true)) =
    seenFile (some c) f := by
  refine File.ext rfl (BitVec.eq_of_getLsbD_eq fun i hi => ?_)
  simp only [seenFile, getLsbD_setNonblock hi, File.getLsbD_setfl hi]
  by_cases h : i = 11
  · simp only [if_pos h]
  · simp only [if_neg h, ite_self]

/-- A new socket is seen as the kernel has made it, whether `init` has set `O_NONBLOCK` or not. -/
lemma seenFile_new {f' : File} (hf' : f' = f ∨ f' = f.setfl (setNonblock f.flags true))
    (hmode : isNonblock f.flags = c.userNonblock) : seenFile (some c) f' = f := by
  have hseen : seenFile (some c) f' = seenFile (some c) f := by
    rcases hf' with rfl | rfl
    · rfl
    · exact seenFile_init
  rw [hseen]
  exact File.ext rfl (setNonblock_eq_self.2 hmode)

variable {m m' : FdManager} {files : ℤ → Option File} {fd : ℤ}

lemma seen_update (he : ∀ fd' ≠ fd, m'.entry fd' = m.entry fd') :
    seen m' (Function.update files fd (some f)) =
      Function.update (seen m files) fd (some (seenFile (m'.entry fd) f)) := by
  funext fd'
  by_cases h : fd' = fd
  · subst h
    simp [seen]
  · simp [seen, h, he fd' h]

end Seen

/-! ### The invariant -/

/-- The plain kernel is what the user sees. -/
structure Mirrors (files₀ : ℤ → Option File) (s : Duo) : Prop where
  sized : s.hooked.loc.fdm.Sized
  plain : s.plain.files = seen s.hooked.loc.fdm s.hooked.out.files
  /-- Contexts are those of open sockets. -/
  managed : ∀ fd c, s.hooked.loc.fdm.entry fd = some c → c.isManaged ∧ c.sysNonblock = true
  isOpen : ∀ fd c, s.hooked.loc.fdm.entry fd = some c → s.hooked.out.files fd ≠ none
  /-- Every descriptor that was opened since has one. -/
  opened : ∀ fd, files₀ fd = none → s.hooked.out.files fd ≠ none →
    s.hooked.loc.fdm.entry fd ≠ none
  results : ∀ p ∈ s.results, p.1 = p.2

/-- What a call on `fd` that sets the mode does to the table, and what the kernel gets (`gh`) for what
the user has asked for (`gp`): without a context it goes to the kernel as it is, with one the mode is
noted, also by a call that fails. -/
inductive Notes (m : FdManager) (fd : ℤ) (mode : Bool) (failing : Prop) (gh gp : File → File) :
    FdManager → Prop
  | passed (h : m.entry fd = none) (hg : gh = gp) : Notes m fd mode failing gh gp m
  | noted {c : FdCtx} (h : m.entry fd = some c) (hfail : failing → c.userNonblock = mode)
      (hg : ∀ f, seenFile (some (c.setUserNonblock mode)) (gh f) = gp (seenFile (some c) f)) :
      Notes m fd mode failing gh gp (m.put fd (c.setUserNonblock mode))

namespace Notes

variable {m m' : FdManager} {fd : ℤ} {mode : Bool} {failing : Prop} {gh gp : File → File}

lemma eq_of_failing (h : Notes m fd mode failing gh gp m') (hf : failing) : m' = m := by
  cases h with
  | passed => rfl
  | noted h hfail => rw [FdCtx.setUserNonblock_self (hfail hf), FdManager.put_self h]

lemma eq_of_none (h : Notes m fd mode failing gh gp m') (hnone : m.entry fd = none) : m' = m := by
  cases h with
  | passed => rfl
  | noted h => cases hnone.symm.trans h

/-- What the kernel gets is seen as what the user has asked for. -/
lemma seenFile (h : Notes m fd mode failing gh gp m') (f : File) :
    seenFile (m'.entry fd) (gh f) = gp (seenFile (m.entry fd) f) := by
  cases h with
  | passed h hg =>
      rw [h, hg]
      rfl
  | noted h _ hg => rw [FdManager.entry_put_self (by simp [h]), h, hg]

lemma others (h : Notes m fd mode failing gh gp m') (hfd : 0 ≤ fd) :
    ∀ fd' ≠ fd, m'.entry fd' = m.entry fd' := by
  intro fd' hne
  cases h with
  | passed => rfl
  | noted => exact FdManager.entry_put_of_ne hne hfd

lemma sized (h : Notes m fd mode failing gh gp m') (hm : m.Sized) : m'.Sized := by
  cases h with
  | passed => exact hm
  | noted => exact hm.put

lemma entry (h : Notes m fd mode failing gh gp m') : m'.entry fd = m.entry fd ∨
    ∃ c, m.entry fd = some c ∧ m'.entry fd = some (c.setUserNonblock mode) := by
  cases h with
  | passed => exact .inl rfl
  | noted h => exact .inr ⟨_, h, FdManager.entry_put_self (by simp [h])⟩

end Notes

namespace Mirrors

variable {files₀ : ℤ → Option File} {s : Duo} {w : State Kernel} {k : Kernel} {v r : ℤ} {fd : ℤ}
  {f : File}

lemma results_snoc (h : Mirrors files₀ s) (hv : v = r) : ∀ p ∈ s.results ++ [(v, r)], p.1 = p.2 := by
  intro p hp
  rcases List.mem_append.1 hp with hp | hp
  · exact h.results p hp
  · rw [List.mem_singleton.1 hp]
    exact hv

lemma entry_of_closed (h : Mirrors files₀ s) (hfile : s.hooked.out.files fd = none) :
    s.hooked.loc.fdm.entry fd = none := by
  by_contra hsome
  obtain ⟨c, hc⟩ := Option.ne_none_iff_exists'.1 hsome
  exact h.isOpen fd c hc hfile

lemma same (h : Mirrors files₀ s) (hfdm : w.loc.fdm = s.hooked.loc.fdm)
    (hfiles : w.out.files = s.hooked.out.files) (hplain : k.files = s.plain.files) (hv : v = r) :
    Mirrors files₀ { hooked := w, plain := k, results := s.results ++ [(v, r)] } where
  sized := hfdm ▸ h.sized
  plain := by
    rw [hplain, hfdm, hfiles]
    exact h.plain
  managed := hfdm ▸ h.managed
  isOpen := by
    rw [hfdm, hfiles]
    exact h.isOpen
  opened := by
    rw [hfdm, hfiles]
    exact h.opened
  results := h.results_snoc hv

lemma change (h : Mirrors files₀ s) (hsized : w.loc.fdm.Sized)
    (hothers : ∀ fd' ≠ fd, w.loc.fdm.entry fd' = s.hooked.loc.fdm.entry fd')
    (hmanaged : ∀ c, w.loc.fdm.entry fd = some c → c.isManaged ∧ c.sysNonblock = true)
    (hopened : files₀ fd = none → w.loc.fdm.entry fd ≠ none)
    (hfiles : w.out.files = Function.update s.hooked.out.files fd (some f))
    (hplain : k.files =
      Function.update s.plain.files fd (some (seenFile (w.loc.fdm.entry fd) f))) (hv : v = r) :
    Mirrors files₀ { hooked := w, plain := k, results := s.results ++ [(v, r)] } where
  sized := hsized
  plain := by rw [hplain, hfiles, seen_update hothers, h.plain]
  managed fd' c hc := by
    by_cases hfd : fd' = fd
    · exact hmanaged c (hfd ▸ hc)
    · exact h.managed fd' c (hothers fd' hfd ▸ hc)
  isOpen fd' c hc := by
    by_cases hfd : fd' = fd
    · subst hfd
      simp [hfiles]
    · rw [hfiles, Function.update_of_ne hfd]
      exact h.isOpen fd' c (hothers fd' hfd ▸ hc)
  opened fd' h₀ hf := by
    by_cases hfd : fd' = fd
    · exact hfd ▸ hopened (hfd ▸ h₀)
    · rw [hothers fd' hfd]
      refine h.opened fd' h₀ ?_
      rwa [hfiles, Function.update_of_ne hfd] at hf
  results := h.results_snoc hv

/-- **A call that sets the mode** does what it does without the hook, for the user. -/
lemma set (h : Mirrors files₀ s) {a : ModeAct} {kind : Kind} {gh gp : File → File} (mode : Bool)
    (hfd : 0 ≤ fd)
    (hnotes : Notes s.hooked.loc.fdm fd mode (a.fails kind ≠ none) gh gp w.loc.fdm)
    (hout : w.out = ((a.prepare s.hooked.out).modify kind fd gh).2)
    (hv : v = ((a.prepare s.hooked.out).modify kind fd gh).1.value) :
    Mirrors files₀
      { hooked := w
        plain := ((a.prepare s.plain).modify kind fd gp).2
        results := s.results ++ [(v, ((a.prepare s.plain).modify kind fd gp).1.value)] } := by
  have hplain : (a.prepare s.plain).files fd =
      (s.hooked.out.files fd).map (seenFile (s.hooked.loc.fdm.entry fd)) := congrFun h.plain fd
  cases hfail : a.fails kind with
  | some e =>
      rw [Kernel.modify_of_fails (show (a.prepare s.hooked.out).fails kind = some e from hfail)]
        at hout hv
      rw [Kernel.modify_of_fails (show (a.prepare s.plain).fails kind = some e from hfail)]
      exact h.same (hnotes.eq_of_failing (by simp [hfail])) (by rw [hout]; rfl) rfl hv
  | none =>
      have hk : (a.prepare s.hooked.out).fails kind = none := hfail
      have hp : (a.prepare s.plain).fails kind = none := hfail
      cases hfile : s.hooked.out.files fd with
      | none =>
          rw [hfile] at hplain
          rw [Kernel.modify_of_closed hk hfile] at hout hv
          rw [Kernel.modify_of_closed hp hplain]
          exact h.same (hnotes.eq_of_none (h.entry_of_closed hfile)) (by rw [hout]; rfl) rfl hv
      | some f =>
          rw [hfile] at hplain
          rw [Kernel.modify_of_open hk hfile] at hout hv
          rw [Kernel.modify_of_open hp hplain, ← hnotes.seenFile]
          refine h.change (f := gh f) (hnotes.sized h.sized) (hnotes.others hfd) ?_ ?_
            (by rw [hout]; rfl) rfl hv
          · intro c hc
            rcases hnotes.entry with heq | ⟨c₀, hc₀, heq⟩
            · exact h.managed fd c (heq ▸ hc)
            · rw [heq] at hc
              cases hc
              exact h.managed fd c₀ hc₀
          · intro h₀
            rcases hnotes.entry with heq | ⟨c₀, -, heq⟩
            · rw [heq]
              exact h.opened fd h₀ (by simp [hfile])
            · simp [heq]

/-! ### The calls -/

section Calls

variable {t : Thread} {a : ModeAct}

lemma step_of_hook {s' : Duo} (hhook : hook kernel t 0 a.call.sys
      { s.hooked with out := a.prepare s.hooked.out } = .ok (v, w))
    (hs' : s' = { hooked := w
                  plain := ((a.prepare s.plain).respond (.sys a.call.sys)).2
                  results := s.results ++
                    [(v, ((a.prepare s.plain).respond (.sys a.call.sys)).1.value)] })
    (hmirrors : Mirrors files₀ s') : ∃ s', s.step t a = some s' ∧ Mirrors files₀ s' := by
  refine ⟨s', ?_, hmirrors⟩
  simp only [Duo.step, hhook, hs']

lemma setfl {n : ℕ} {flags : BitVec 32} (h : Mirrors files₀ s) (ha : a.call = .setfl n flags)
    (hg : Faithful s a) : ∃ s', s.step t a = some s' ∧ Mirrors files₀ s' := by
  have hfd : (0 : ℤ) ≤ n := by omega
  have hget := h.sized.get hfd
  simp only [Faithful, ha] at hg
  cases he : s.hooked.loc.fdm.entry n with
  | none =>
      rw [he] at hget
      refine step_of_hook (by rw [ha]; exact fcntl_setfl_passed hget (by simp)) rfl ?_
      rw [ha]
      exact h.set (isNonblock flags) hfd (.passed he rfl) rfl rfl
  | some c =>
      rw [he] at hget
      obtain ⟨hc, hsys⟩ := h.managed n c he
      refine step_of_hook (by rw [ha]; exact fcntl_setfl_managed hget hc) rfl ?_
      rw [ha, hsys]
      exact h.set (isNonblock flags) hfd (.noted he (hg c he) fun f => seenFile_setfl) rfl rfl

lemma fionbio {n : ℕ} {arg : Ptr} (h : Mirrors files₀ s) (ha : a.call = .fionbio n arg)
    (hg : Faithful s a) : ∃ s', s.step t a = some s' ∧ Mirrors files₀ s' := by
  have hfd : (0 : ℤ) ≤ n := by omega
  have hget := h.sized.get hfd
  simp only [Faithful, ha] at hg
  cases he : s.hooked.loc.fdm.entry n with
  | none =>
      rw [he] at hget
      refine step_of_hook (by rw [ha]; exact ioctl_passed hget (by simp) rfl) rfl ?_
      rw [ha]
      exact h.set (a.ints arg != 0) hfd (.passed he rfl) rfl rfl
  | some c =>
      rw [he] at hget
      obtain ⟨hc, hsys⟩ := h.managed n c he
      refine step_of_hook (by rw [ha]; exact ioctl_managed rfl hget hc) rfl ?_
      rw [ha]
      exact h.set (a.ints arg != 0) hfd (.noted he (hg c he) fun f => seenFile_fionbio) rfl rfl

lemma getfl {n : ℕ} (h : Mirrors files₀ s) (ha : a.call = .getfl n) (hg : Faithful s a) :
    ∃ s', s.step t a = some s' ∧ Mirrors files₀ s' := by
  have hget := h.sized.get (show (0 : ℤ) ≤ n by omega)
  have hplain : s.plain.files n =
      (s.hooked.out.files n).map (seenFile (s.hooked.loc.fdm.entry n)) := congrFun h.plain n
  simp only [Faithful, ha] at hg
  cases he : s.hooked.loc.fdm.entry n with
  | none =>
      rw [he] at hget hplain
      refine step_of_hook (by rw [ha]; exact fcntl_getfl_passed hget (by simp)) rfl ?_
      rw [ha]
      refine h.same rfl rfl rfl ?_
      simp only [kernel_answer, ModeCall.sys, Kernel.respond, Kernel.getfl, ModeAct.prepare, hplain]
      cases a.fails .getfl <;> cases s.hooked.out.files n <;> rfl
  | some c =>
      rw [he] at hget hplain
      obtain ⟨f, hf⟩ := Option.ne_none_iff_exists'.1 (h.isOpen n c he)
      obtain ⟨hc, hsys⟩ := h.managed n c he
      refine step_of_hook (by rw [ha]; exact fcntl_getfl_managed hget hc) rfl ?_
      rw [ha]
      refine h.same rfl rfl rfl ?_
      simp only [kernel_answer, ModeCall.sys, Kernel.respond, Kernel.getfl, ModeAct.prepare, hplain, hf]
      cases hfail : a.fails .getfl with
      | none => simp [seenFile]
      | some e =>
          rw [hg c he (by simp [hfail])]
          exact (by decide : (setNonblock (.ofInt 32 (-1)) true).toInt = -1)

lemma isNonblock_new {type : BitVec 32} :
    isNonblock (oRdwr ||| type &&& oNonblock) = isNonblock type := by
  simp only [isNonblock_eq, BitVec.getLsbD_or, BitVec.getLsbD_and]
  rw [show oRdwr.getLsbD 11 = false by decide, show oNonblock.getLsbD 11 = true by decide]
  simp

section Socket

variable {domain type protocol : ℤ} (ht : t.hooked = true) (ha : a.call = .socket domain type protocol)

include ht ha

lemma socket_failed {e : ℤ} (h : Mirrors files₀ s)
    (hk : (a.prepare s.hooked.out).respond (.sys (.socket domain type protocol)) =
      (⟨-1, e⟩, a.prepare s.hooked.out))
    (hp : (a.prepare s.plain).respond (.sys (.socket domain type protocol)) =
      (⟨-1, e⟩, a.prepare s.plain)) : ∃ s', s.step t a = some s' ∧ Mirrors files₀ s' := by
  refine step_of_hook (by rw [ha]; exact socket_of_fail rfl ht (by simp [hk])) rfl ?_
  rw [ha]
  refine h.same rfl ?_ ?_ ?_
  · rw [answered_out, kernel_answer, hk]
    rfl
  · rw [ModeCall.sys, hp]
    rfl
  · rw [ModeCall.sys, hp, kernel_answer, hk]

lemma socket_opened (h : Mirrors files₀ s) {f : File} (hsock : f.sock = true)
    (hblock : isNonblock f.flags = false) (hstat : a.fails .fstat = none)
    (hroom : a.fresh * 3 / 2 < 2 ^ 31) (hnone : s.hooked.out.files a.fresh = none)
    (hk : (a.prepare s.hooked.out).respond (.sys (.socket domain type protocol)) =
      (⟨a.fresh, 0⟩, (a.prepare s.hooked.out).put a.fresh (some f)))
    (hp : (a.prepare s.plain).respond (.sys (.socket domain type protocol)) =
      (⟨a.fresh, 0⟩, (a.prepare s.plain).put a.fresh (some f))) :
    ∃ s', s.step t a = some s' ∧ Mirrors files₀ s' := by
  have hfd : (0 : ℤ) ≤ a.fresh := by omega
  have hget : s.hooked.loc.fdm.get a.fresh = .ok none := by
    rw [h.sized.get hfd, h.entry_of_closed hnone]
  set w₀ : State Kernel := { s.hooked with out := a.prepare s.hooked.out }
  set w₁ := answered kernel (.sys (.socket domain type protocol)) w₀ with hw₁
  have hout : w₁.out = (a.prepare s.hooked.out).put a.fresh (some f) := by
    rw [hw₁, answered_out, kernel_answer, hk]
  have hfile : w₁.out.files a.fresh = some f := by simp [hout]
  have hctx := initCtx_kernel hfile (show w₁.out.fails .fstat = none by rw [hout]; exact hstat)
  rw [hsock] at hctx
  obtain ⟨m, hstore, hsized, hself, hothers⟩ := h.sized.store
    (c := initCtx kernel a.fresh w₁) hfd fun _ => by simpa using hroom
  rw [hctx] at hself
  obtain ⟨f', hfiles, hf'⟩ := initWorld_kernel hfile
  refine step_of_hook (v := a.fresh) (w := madeWorld kernel a.fresh w₁ m) ?_ rfl ?_
  · rw [ha]
    have hvalue : (kernel.answer w₀.out (.sys (.socket domain type protocol))).1.value =
        a.fresh := by rw [kernel_answer, hk]
    refine (socket_of_success (w := w₀) hvalue ht (by omega)).trans ?_
    rw [← hw₁, fdGetCreate_of_none (w := w₁) (by omega) hget, fdCreate_apply,
      show w₁.loc.fdm.store a.fresh _ = _ from hstore]
    rfl
  · rw [ha]
    refine h.change (f := f') hsized hothers ?_ (fun _ => ?_) ?_ ?_ ?_
    · intro c hc
      cases hself.symm.trans hc
      exact ⟨rfl, rfl⟩
    · exact fun hnone' => by cases hself.symm.trans hnone'
    · change (initWorld kernel a.fresh w₁).out.files = _
      rw [hfiles, hout]
      exact Function.update_idem ..
    · change _ = Function.update s.plain.files a.fresh (some (seenFile (m.entry a.fresh) f'))
      rw [hself, seenFile_new hf' hblock, ModeCall.sys, hp]
      rfl
    · rw [ModeCall.sys, hp]

end Socket

lemma socket {domain type protocol : ℤ} (h : Mirrors files₀ s) (ht : t.hooked = true)
    (ha : a.call = .socket domain type protocol) (hg : Faithful s a) :
    ∃ s', s.step t a = some s' ∧ Mirrors files₀ s' := by
  simp only [Faithful, ha] at hg
  have hplain : s.plain.files a.fresh = (s.hooked.out.files a.fresh).map _ :=
    congrFun h.plain a.fresh
  have hrespond : ∀ k : Kernel, (a.prepare k).respond (.sys (.socket domain type protocol)) =
      (a.prepare k).attempt .socket
        ((a.prepare k).opens (oRdwr ||| .ofInt 32 type &&& oNonblock)) := fun _ => rfl
  cases hfail : a.fails .socket with
  | some e =>
      refine socket_failed ht ha h (e := e) ?_ ?_ <;>
      · rw [hrespond]
        exact Kernel.attempt_of_some hfail
  | none =>
      obtain ⟨htype, hstat, hroom⟩ := hg hfail
      have hattempt : ∀ k : Kernel, (a.prepare k).respond (.sys (.socket domain type protocol)) =
          (a.prepare k).opens (oRdwr ||| .ofInt 32 type &&& oNonblock) := fun k =>
        (hrespond k).trans (Kernel.attempt_of_none hfail)
      cases hfile : s.hooked.out.files a.fresh with
      | some f =>
          rw [hfile] at hplain
          exact socket_failed ht ha h ((hattempt _).trans (Kernel.opens_of_used hfile))
            ((hattempt _).trans (Kernel.opens_of_used hplain))
      | none =>
          rw [hfile] at hplain
          exact socket_opened ht ha h rfl (isNonblock_new.trans htype) hstat hroom hfile
            ((hattempt _).trans (Kernel.opens_of_unused hfile))
            ((hattempt _).trans (Kernel.opens_of_unused hplain))

end Calls

/-- **Every admitted call returns**, and the user still sees the plain kernel. -/
theorem step (h : Mirrors files₀ s) {t : Thread} (ht : t.hooked = true) {a : ModeAct}
    (hg : Faithful s a) : ∃ s', s.step t a = some s' ∧ Mirrors files₀ s' := by
  cases hcall : a.call with
  | socket => exact h.socket ht hcall hg
  | setfl => exact h.setfl hcall hg
  | getfl => exact h.getfl hcall hg
  | fionbio => exact h.fionbio hcall hg

theorem start : Mirrors files₀ (Duo.start files₀) where
  sized := FdManager.sized_constructed
  plain := by
    funext fd
    have hentry : (Duo.start files₀).hooked.loc.fdm.entry fd = none := FdManager.entry_constructed
    rw [seen, hentry]
    exact Option.map_id'.symm
  managed fd c hc := by cases FdManager.entry_constructed.symm.trans hc
  isOpen fd c hc := by cases FdManager.entry_constructed.symm.trans hc
  opened fd h₀ hf := absurd h₀ hf
  results p hp := absurd hp List.not_mem_nil

theorem of_reach {t : Thread} (ht : t.hooked = true)
    (h : Reach (Duo.step t) Faithful (Duo.start files₀) s) : Mirrors files₀ s :=
  h.inv start fun _ hx hg hs => by
    obtain ⟨s', hs', hmirrors⟩ := hx.step ht hg
    cases hs.symm.trans hs'
    exact hmirrors

/-- The context of a descriptor that was opened since has the mode of the plain kernel. -/
lemma userNonblock (h : Mirrors files₀ s) (h₀ : files₀ fd = none) (hf : s.plain.files fd = some f) :
    ∃ c, s.hooked.loc.fdm.entry fd = some c ∧ c.isManaged ∧ c.userNonblock = isNonblock f.flags := by
  rw [h.plain, seen] at hf
  obtain ⟨f', hf', rfl⟩ := Option.map_eq_some_iff.1 hf
  obtain ⟨c, hc⟩ := Option.ne_none_iff_exists'.1 (h.opened fd h₀ (by simp [hf']))
  refine ⟨c, hc, (h.managed fd c hc).1, ?_⟩
  rw [hc]
  exact isNonblock_setNonblock.symm

end Mirrors

/-! ### Waiting -/

/-- With this table, `do_io` on `fd` whose call would block waits and tries again. -/
def WaitsAgain (m : FdManager) (fd : ℤ) : Prop :=
  ∀ (σ : Type) (O : Outside σ) (t : Thread) (fuel : ℕ) (fn : Sys) (event : IOManager.Event)
    (dir : Direction) (w : State σ), t.hooked = true → w.loc.fdm = m →
    (O.answer w.out (.sys fn)).1 = ⟨-1, EAGAIN⟩ →
    ∃ timeout, doIo O t (fuel + 1) fd fn event dir w =
      waitRetry O t fd event timeout (doIoLoop O t fd fn event timeout fuel)
        (answered O (.sys fn) w)

/-- With this table, `do_io` on `fd` whose call would block returns at once. -/
def ReturnsAgain (m : FdManager) (fd : ℤ) : Prop :=
  ∀ (σ : Type) (O : Outside σ) (t : Thread) (fuel : ℕ) (fn : Sys) (event : IOManager.Event)
    (dir : Direction) (w : State σ), t.hooked = true → w.loc.fdm = m →
    (O.answer w.out (.sys fn)).1 = ⟨-1, EAGAIN⟩ →
    doIo O t (fuel + 1) fd fn event dir w = .ok (-1, answered O (.sys fn) w)

section Waiting

variable {m : FdManager} {fd : ℤ} {c : FdCtx}

lemma waitsAgain (hget : m.get fd = .ok (some c)) (hc : c.isManaged) (huser : c.userNonblock = false) :
    WaitsAgain m fd := by
  rintro σ O t fuel fn event dir w ht rfl hagain
  exact ⟨c.getTimeout dir, by rw [doIo_block ht hget hc huser, doIoLoop_again hagain]⟩

lemma returnsAgain (hget : m.get fd = .ok (some c)) (hc : c.isManaged)
    (huser : c.userNonblock = true) : ReturnsAgain m fd := by
  rintro σ O t fuel fn event dir w ht rfl hagain
  rw [doIo_nonblock ht hget hc huser, sys_apply, hagain]

/-- An outside in which every call would block. -/
def busy : Outside Unit where
  answer _ _ := (⟨-1, EAGAIN⟩, ())
  readInt _ _ := some 0
  readTime _ _ := some (0, 0)
  cancelled _ := 0
  fcntl_int _ _ _ := by decide
  accept_new _ _ _ _ hs := neg_one_ne hs

/-- The two can be told apart: without an `IOManager`, a wait ends the process. -/
lemma not_waitsAgain_and_returnsAgain (hwait : WaitsAgain m fd) (hreturn : ReturnsAgain m fd) :
    False := by
  have hw := hwait Unit busy ⟨true, false⟩ 0 (.close 0) .read .recv ⟨(), { fdm := m }, []⟩ rfl rfl rfl
  have hr := hreturn Unit busy ⟨true, false⟩ 0 (.close 0) .read .recv ⟨(), { fdm := m }, []⟩ rfl rfl rfl
  obtain ⟨timeout, hw⟩ := hw
  rw [hr] at hw
  by_cases htimer : timeout = forever <;> simp [waitRetry, iomCall, htimer] at hw

end Waiting

/-- **The user sees a kernel without the hook**: in a run of admitted calls, every call has returned
what it returns there, the next one returns as well, and on every descriptor that was opened in the
run `do_io` waits exactly while that kernel has it in blocking mode. -/
theorem user_mode (t : Thread) (ht : t.hooked = true) (files₀ : ℤ → Option File) (s : Duo)
    (h : Reach (Duo.step t) Faithful (Duo.start files₀) s) :
    (∀ p ∈ s.results, p.1 = p.2) ∧ (∀ a, Faithful s a → (s.step t a).isSome) ∧
    ∀ fd f, files₀ fd = none → s.plain.files fd = some f →
      (isNonblock f.flags = false ↔ WaitsAgain s.hooked.loc.fdm fd) ∧
      (isNonblock f.flags = true ↔ ReturnsAgain s.hooked.loc.fdm fd) := by
  have hm := Mirrors.of_reach ht h
  refine ⟨hm.results, fun a hg => ?_, fun fd f h₀ hf => ?_⟩
  · obtain ⟨s', hs', -⟩ := hm.step ht hg
    rw [hs']
    rfl
  · obtain ⟨c, hc, hmanaged, huser⟩ := hm.userNonblock h₀ hf
    have hget : s.hooked.loc.fdm.get fd = .ok (some c) := by
      rw [hm.sized.get (FdManager.lt_length_of_entry hc).1, hc]
    rw [← huser]
    cases hmode : c.userNonblock with
    | false =>
        have hwait := waitsAgain hget hmanaged hmode
        exact ⟨iff_of_true rfl hwait,
          iff_of_false (by decide) fun hr => not_waitsAgain_and_returnsAgain hwait hr⟩
    | true =>
        have hreturn := returnsAgain hget hmanaged hmode
        exact ⟨iff_of_false (by decide) fun hw => not_waitsAgain_and_returnsAgain hw hreturn,
          iff_of_true rfl hreturn⟩

theorem user_mode_set : ∃ s : Duo, s.results = [(3, 3), (0, 0), (0x802, 0x802)] ∧
    ReturnsAgain s.hooked.loc.fdm 3 := by
  have h : (run (Duo.step ⟨true, true⟩) (fun s a => decide (Faithful s a)) (Duo.start fun _ => none)
      [{ call := .socket 2 1 0, fresh := 3 }, { call := .setfl 3 0x800 }, { call := .getfl 3 }]).any
      (fun s => s.results == [(3, 3), (0, 0), (0x802, 0x802)] &&
        s.plain.files 3 == some ⟨true, 0x802⟩) = true := by decide +kernel
  obtain ⟨s, hr, hs⟩ := exists_reach_of_run (fun _ _ => of_decide_eq_true) h
  simp only [Bool.and_eq_true, beq_iff_eq] at hs
  refine ⟨s, hs.1, ?_⟩
  exact (((user_mode ⟨true, true⟩ rfl _ s hr).2.2 3 _ rfl hs.2).2).1 (by decide)

/-- **The user's mode is lost.** A socket that is made with `SOCK_NONBLOCK` is reported blocking; a
failing `F_GETFL` returns -2049; a failing `F_SETFL` changes the mode that is reported. -/
theorem mode_lost :
    (run (Duo.step ⟨true, true⟩) (fun _ _ => true) (Duo.start fun _ => none)
      [{ call := .socket 2 0x801 0, fresh := 3 }, { call := .getfl 3 }]).map Duo.results =
        some [(3, 3), (0x2, 0x802)] ∧
    (run (Duo.step ⟨true, true⟩) (fun _ _ => true) (Duo.start fun _ => none)
      [{ call := .socket 2 1 0, fresh := 3 },
        { call := .getfl 3, fails := fun _ => some 5 }]).map Duo.results =
        some [(3, 3), (-2049, -1)] ∧
    (run (Duo.step ⟨true, true⟩) (fun _ _ => true) (Duo.start fun _ => none)
      [{ call := .socket 2 1 0, fresh := 3 },
        { call := .setfl 3 0x800, fails := fun _ => some 5 }, { call := .getfl 3 }]).map Duo.results =
        some [(3, 3), (-1, -1), (0x802, 0x2)] := by
  decide +kernel

end Eva01.Hook
