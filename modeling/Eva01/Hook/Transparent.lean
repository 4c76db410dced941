import Eva01.Hook.Calls

/-!
Threads with the hook off.

Such a thread should not notice the interposed functions: each should be the underlying call. The
functions that ask `t_hooked` first are. `fcntl` and `ioctl` do not ask it, and read and write the
contexts that hooked threads have left; `accept` asks it in `do_io` only, and makes a context for the
descriptor it returns. `Unnoticed` says for each call when nothing of this shows.
-/

namespace Eva01.Hook

open Eva01.Lib Eva01.Lib.Interact

variable {σ : Type} {O : Outside σ} {t : Thread} {w : State σ} {fuel : ℕ} {fd : ℤ}

/-- Looking up a descriptor does not fail, and what is found is as `P` says if it is the context of
an open socket. -/
def Finds (m : FdManager) (fd : ℤ) (P : FdCtx → Prop) : Prop :=
  ∃ e, m.get fd = .ok e ∧ ∀ c, e = some c → c.isManaged → P c

/-- The calls that a thread with the hook off makes as if there were no hook. -/
def Unnoticed (O : Outside σ) (w : State σ) : Sys → Prop
  | .accept s addr addrlen =>
      let r := (O.answer w.out (.sys (.accept s addr addrlen))).1.value
      r < 0 ∨ ∃ c, w.loc.fdm.get r = .ok (some c)
  | .fcntl fd (.setfl flags) => Finds w.loc.fdm fd fun c =>
      c.userNonblock = isNonblock flags ∧ c.sysNonblock = isNonblock flags
  | .fcntl fd .getfl => Finds w.loc.fdm fd fun c =>
      c.userNonblock = isNonblock (.ofInt 32 (O.answer w.out (.sys (.fcntl fd .getfl))).1.value)
  | .fcntl _ (.other _ arg) => arg = none
  | .ioctl d request arg => request = FIONBIO → ∃ v, O.readInt w.out arg = some v ∧
      Finds w.loc.fdm d fun c => c.userNonblock = (v != 0)
  | _ => True

/-! ### The calls that differ -/

/-- The way of `fcntl` and `ioctl` into the table: without the context of an open socket the call is
passed on, and with one it is up to `P`. -/
lemma finds_iff {m : FdManager} {P : FdCtx → Prop} {α : Type} {x y : Except Fail α}
    (hfail : ∀ f, m.get fd = .error f → x ≠ y)
    (hpassed : ∀ e, m.get fd = .ok e → (∀ c, e = some c → c.isManaged = false) → x = y)
    (hmanaged : ∀ c, m.get fd = .ok (some c) → c.isManaged → (x = y ↔ P c)) :
    x = y ↔ Finds m fd P := by
  unfold Finds
  rcases hget : m.get fd with f | e
  · exact iff_of_false (hfail f hget) (by simp)
  · simp only [Except.ok.injEq, exists_eq_left']
    by_cases he : ∃ c, e = some c ∧ c.isManaged
    · obtain ⟨c, rfl, hc⟩ := he
      simpa [hc] using hmanaged c hget hc
    · have hno : ∀ c, e = some c → c.isManaged = false := fun c hc => by
        simpa using fun hm => he ⟨c, hc, hm⟩
      exact iff_of_true (hpassed e hget hno) fun c hc hm => absurd hm (by simp [hno c hc])

/-- Two requests leave the same world only if they are the same, from the same table. -/
lemma answered_inj {q q' : Request} {w' : State σ} (h : answered O q w' = answered O q' w)
    (htrace : w'.trace = w.trace) : q = q' ∧ w'.loc.fdm = w.loc.fdm := by
  have hq := congrArg World.trace h
  have hfdm := congrArg (fun v => v.loc.fdm) h
  simp only [answered_trace, htrace, List.append_cancel_left_eq, List.cons.injEq, and_true] at hq
  exact ⟨hq, hfdm⟩

lemma userNonblock_of_put_eq {m : FdManager} {c : FdCtx} {v : Bool} (h : m.get fd = .ok (some c))
    (hput : m.put fd (c.setUserNonblock v) = m) : c.userNonblock = v :=
  (congrArg FdCtx.userNonblock (FdManager.eq_of_put_eq (FdManager.entry_of_get h) hput)).symm

lemma put_setUserNonblock_self {m : FdManager} {c : FdCtx} {v : Bool} (h : m.get fd = .ok (some c))
    (huser : c.userNonblock = v) : m.put fd (c.setUserNonblock v) = m := by
  rw [FdCtx.setUserNonblock_self huser, FdManager.put_self (FdManager.entry_of_get h)]

lemma fcntl_setfl_iff {flags : BitVec 32} :
    fcntl O fd (.setfl flags) w = plain O (.fcntl fd (.setfl flags)) w ↔
      Unnoticed O w (.fcntl fd (.setfl flags)) := by
  refine finds_iff (fun f hget => by simp [fcntl, plain, hget])
    (fun e hget he => fcntl_setfl_passed hget he) fun c hget hc => ?_
  simp only [fcntl_setfl_managed hget hc, plain, sys_apply, Except.ok.injEq, Prod.mk.injEq]
  constructor
  · rintro ⟨-, h⟩
    obtain ⟨hq, hfdm⟩ := answered_inj h rfl
    simp only [Request.sys.injEq, Sys.fcntl.injEq, Fcntl.setfl.injEq, true_and] at hq
    exact ⟨userNonblock_of_put_eq hget hfdm, (setNonblock_eq_self.1 hq).symm⟩
  · rintro ⟨huser, hsys⟩
    rw [put_setUserNonblock_self hget huser, setNonblock_eq_self.2 hsys.symm]
    exact ⟨rfl, rfl⟩

lemma fcntl_getfl_iff : fcntl O fd .getfl w = plain O (.fcntl fd .getfl) w ↔
    Unnoticed O w (.fcntl fd .getfl) := by
  refine finds_iff (fun f hget => by simp [fcntl, plain, hget])
    (fun e hget he => fcntl_getfl_passed hget he) fun c hget hc => ?_
  simp only [fcntl_getfl_managed hget hc, plain, sys_apply, Except.ok.injEq, Prod.mk.injEq, and_true]
  generalize hr : (O.answer w.out (.sys (.fcntl fd .getfl))).1.value = r
  have hint : (BitVec.ofInt 32 r).toInt = r := by
    have := O.fcntl_int w.out fd .getfl
    rw [BitVec.toInt_ofInt]
    exact Int.bmod_eq_of_le (by omega) (by omega)
  nth_rewrite 2 [← hint]
  rw [BitVec.toInt_inj, setNonblock_eq_self, eq_comm]

lemma fcntl_other_iff {cmd : ℤ} {arg : Option ℤ} :
    fcntl O fd (.other cmd arg) w = plain O (.fcntl fd (.other cmd arg)) w ↔
      Unnoticed O w (.fcntl fd (.other cmd arg)) := by
  simp only [fcntl, plain, sys_apply, Unnoticed, Except.ok.injEq, Prod.mk.injEq]
  constructor
  · rintro ⟨-, h⟩
    obtain ⟨hq, -⟩ := answered_inj h rfl
    simpa using hq.symm
  · rintro rfl
    exact ⟨rfl, rfl⟩

lemma ioctl_iff {request : ℕ} {arg : Ptr} :
    ioctl O fd request arg w = plain O (.ioctl fd request arg) w ↔
      Unnoticed O w (.ioctl fd request arg) := by
  simp only [Unnoticed]
  by_cases hreq : request = FIONBIO
  · subst hreq
    rcases hread : O.readInt w.out arg with _ | v
    · simp [ioctl, hread, plain]
    · simp only [true_implies, Option.some.injEq, exists_eq_left']
      refine finds_iff (fun f hget => by simp [ioctl, plain, hread, hget])
        (fun e hget he => ioctl_passed hget he hread) fun c hget hc => ?_
      simp only [ioctl_managed hread hget hc, plain, sys_apply, Except.ok.injEq, Prod.mk.injEq]
      constructor
      · rintro ⟨-, h⟩
        exact userNonblock_of_put_eq hget (answered_inj h rfl).2
      · intro huser
        rw [put_setUserNonblock_self hget huser]
        exact ⟨trivial, rfl⟩
  · simp [ioctl, hreq, plain]

lemma accept_iff {s : ℤ} {addr addrlen : Ptr} (ht : t.hooked = false) :
    accept O t fuel s addr addrlen w = plain O (.accept s addr addrlen) w ↔
      Unnoticed O w (.accept s addr addrlen) := by
  set w₁ := answered O (.sys (.accept s addr addrlen)) w
  set r := (O.answer w.out (.sys (.accept s addr addrlen))).1.value with hr
  have hio : doIo O t fuel s (.accept s addr addrlen) .read .recv w = .ok (r, w₁) := by
    rw [doIo_off ht, sys_apply]
  change _ = Except.ok (r, w₁) ↔ r < 0 ∨ ∃ c, w.loc.fdm.get r = .ok (some c)
  by_cases hneg : r < 0
  · exact iff_of_true (accept_of_neg hio hneg) (.inl hneg)
  have hpos : 0 ≤ r := not_lt.1 hneg
  obtain ⟨e, he⟩ : ∃ e, w.loc.fdm.get r = .ok e := ⟨_, FdManager.get_of_nonneg hpos⟩
  cases e with
  | some c => exact iff_of_true (accept_of_some hio hpos he) (.inr ⟨c, he⟩)
  | none =>
      refine iff_of_false (fun h => ?_) (by simp [he, hneg])
      rw [accept_of_none hio hpos he] at h
      cases hstore : w₁.loc.fdm.store r (initCtx O r w₁) with
      | error f =>
          rw [hstore] at h
          cases h
      | ok m =>
        rw [hstore] at h
        simp only [ok_map, Except.ok.injEq, Prod.mk.injEq, true_and] at h
        have htrace := congrArg World.trace h
        exact trace_initWorld_ne htrace

/-! ### All calls -/

/-- **With the hook off, a call is exactly the underlying one if it is unnoticed**: it returns what
that returns, leaves the table, `errno` and the outside as that does, and has made this one
request. -/
theorem hook_off_iff (O : Outside σ) (t : Thread) (ht : t.hooked = false) (fuel : ℕ) (c : Sys)
    (w : State σ) : hook O t fuel c w = plain O c w ↔ Unnoticed O w c := by
  cases c with
  | accept s addr addrlen => exact accept_iff ht
  | fcntl fd cmd =>
      cases cmd with
      | setfl flags => exact fcntl_setfl_iff
      | getfl => exact fcntl_getfl_iff
      | other cmd arg => exact fcntl_other_iff
      | int | get | lock | owner => simp [hook, fcntl, plain, Unnoticed]
  | ioctl d request arg => exact ioctl_iff
  | sleep | usleep | nanosleep | socket | close | getsockopt =>
      simp [hook, sleep, usleep, nanosleep, socket, close, getsockopt, ht, plain, Unnoticed]
  | connect => simp [hook, connect, connectWithTimeout, ht, plain, Unnoticed]
  | setsockopt => simp [hook, setsockopt, ht, plain, Unnoticed]
  | read | readv | recv | recvfrom | recvmsg | write | writev | send | sendto | sendmsg =>
      simp [hook, read, readv, recv, recvfrom, recvmsg, write, writev, send, sendto, sendmsg,
        doIo_off ht, plain, Unnoticed]

/-- An outside in which `socket` returns 3, whose flags have `O_NONBLOCK` from then on, and `accept`
returns 5. -/
def socketThree : Outside Unit where
  answer _ q := (match q with
    | .sys (.socket ..) => ⟨3, 0⟩
    | .sys (.accept s _ _) => if s = 5 then ⟨-1, EBADF⟩ else ⟨5, 0⟩
    | .sys (.fcntl fd .getfl) => if fd = 3 then ⟨0x802, 0⟩ else ⟨0x2, 0⟩
    | .fstat _ => ⟨0xC000, 0⟩
    | _ => ⟨0, 0⟩, ())
  readInt _ _ := some 0
  readTime _ _ := some (0, 0)
  cancelled _ := 0
  fcntl_int _ fd cmd := by
    cases cmd with
    | getfl => dsimp only; split <;> decide
    | _ => exact (by decide : -2 ^ 31 ≤ (0 : ℤ) ∧ (0 : ℤ) < 2 ^ 31)
  accept_new _ s _ _ hs := by
    dsimp only
    split <;> dsimp only <;> omega

def hookOn : Thread := { hooked := true, iom := true }
def hookOff : Thread := { hooked := false, iom := true }

theorem hook_off_iff_failed : hook socketThree hookOff 0 (.accept 5 0 0) ⟨(), {}, []⟩ =
    plain socketThree (.accept 5 0 0) ⟨(), {}, []⟩ :=
  (hook_off_iff socketThree hookOff rfl 0 (.accept 5 0 0) ⟨(), {}, []⟩).2 (.inl (by decide))

/-- The table when descriptor 3 has been made by a hooked `socket`. -/
def madeThree : State Unit where
  out := ()
  loc := { fdm := FdManager.put {} 3 { isInit := true, isSocket := true, sysNonblock := true, fd := 3 } }
  trace := [.sys (.socket 2 1 0), .fstat 3, .sys (.fcntl 3 .getfl)]

/-- Three calls with the hook off, behind a `socket` with the hook on: `accept` makes a context for
descriptor 5, `F_GETFL` returns other flags than the kernel's, and `F_OFD_SETLK` (37) loses its
argument. -/
theorem noticed : hook socketThree hookOn 0 (.socket 2 1 0) ⟨(), {}, []⟩ = .ok (3, madeThree) ∧
    hook socketThree hookOff 0 (.accept 3 0 0) madeThree ≠
      plain socketThree (.accept 3 0 0) madeThree ∧
    hook socketThree hookOff 0 (.fcntl 3 .getfl) madeThree ≠
      plain socketThree (.fcntl 3 .getfl) madeThree ∧
    hook socketThree hookOff 0 (.fcntl 3 (.other 37 (some 8))) madeThree ≠
      plain socketThree (.fcntl 3 (.other 37 (some 8))) madeThree := by
  decide +kernel

end Eva01.Hook
