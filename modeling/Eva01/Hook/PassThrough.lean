import Eva01.Hook.Calls

/-!
Descriptors without a context, on threads with the hook on.

A descriptor that was opened before the hook was switched on, or by a thread without it, has no
context. The calls on it should be the underlying ones as far as their caller can see. Most wrappers
take the missing context for that; `connect` takes it for a closed descriptor and returns `EBADF`
without a call.
-/

namespace Eva01.Hook

open Eva01.Lib Eva01.Lib.Interact

/-- The descriptor that a call is made on. -/
def Sys.target : Sys → Option ℤ
  | .sleep .. | .usleep .. | .nanosleep .. | .socket .. => none
  | .connect fd .. | .accept fd .. | .read fd .. | .readv fd .. | .recv fd .. | .recvfrom fd ..
  | .recvmsg fd .. | .write fd .. | .writev fd .. | .send fd .. | .sendto fd .. | .sendmsg fd ..
  | .close fd | .fcntl fd .. | .ioctl fd .. | .getsockopt fd .. | .setsockopt fd .. => some fd

variable {σ : Type} {O : Outside σ} {t : Thread} {w : State σ} {fuel : ℕ} {fd : ℤ} {c : Sys}

/-- What a call returned, as far as it is defined: `errno` is, when the call has failed. -/
def Ret.Same (r r' : Ret) : Prop := r.value = r'.value ∧ (r.value = -1 → r.errno = r'.errno)

/-- **A call on `fd` passes through**: it returns what the underlying call returns, asks nothing of
the scheduler, so that the fiber is not suspended and timers and events stay, and `fd` keeps its
entry. -/
def PassesThrough (O : Outside σ) (t : Thread) (fuel : ℕ) (c : Sys) (fd : ℤ) (w : State σ) : Prop :=
  ∃ v w', hook O t fuel c w = .ok (v, w') ∧
    Ret.Same ⟨v, w'.loc.errno⟩ (O.answer w.out (.sys c)).1 ∧
    (∃ l, w'.trace = w.trace ++ l ∧ ∀ q ∈ l, ∀ r, q ≠ .iom r) ∧
    w'.loc.fdm.entry fd = w.loc.fdm.entry fd

/-- The calls that do, on a descriptor without a context. -/
def PassedOn (O : Outside σ) (w : State σ) : Sys → Prop
  | .connect fd addr addrlen =>
      Ret.Same ⟨-1, EBADF⟩ (O.answer w.out (.sys (.connect fd addr addrlen))).1
  | .accept s addr addrlen =>
      let r := (O.answer w.out (.sys (.accept s addr addrlen))).1.value
      0 ≤ r → w.loc.fdm.size ≤ r → 2 ≤ r
  | .fcntl fd (.other cmd arg) =>
      Ret.Same (O.answer w.out (.sys (.fcntl fd (.other cmd none)))).1
        (O.answer w.out (.sys (.fcntl fd (.other cmd arg)))).1
  | .ioctl _ request arg => request = FIONBIO → (O.readInt w.out arg).isSome
  | _ => True

lemma passesThrough_of_eq_sys (h : hook O t fuel c w = sys O c w) : PassesThrough O t fuel c fd w :=
  ⟨_, _, h, ⟨rfl, fun _ => rfl⟩, ⟨[.sys c], rfl, by simp⟩, rfl⟩

lemma passesThrough_made {addr addrlen : Ptr} {m : FdManager} {r : ℤ} {w₁ : State σ} {x : FdCtx}
    (hw₁ : w₁ = answered O (.sys (.accept fd addr addrlen)) w)
    (hr : r = (O.answer w.out (.sys (.accept fd addr addrlen))).1.value) (hpos : 0 ≤ r)
    (hne : fd ≠ r) (h : w.loc.fdm.entry fd = none) (hstore : w.loc.fdm.store r x = .ok m)
    (hhook : accept O t fuel fd addr addrlen w = .ok (r, madeWorld O r w₁ m)) :
    PassesThrough O t fuel (.accept fd addr addrlen) fd w := by
  obtain ⟨l, hl, hinit⟩ := trace_initWorld O r w₁
  refine ⟨r, _, hhook, ⟨hr, fun hneg => by simp only at hneg; omega⟩,
    ⟨.sys (.accept fd addr addrlen) :: l, ?_, ?_⟩, ?_⟩
  · rw [madeWorld, hl, hw₁, answered_trace, List.append_assoc, List.singleton_append]
  · intro q hq i
    rcases List.mem_cons.1 hq with rfl | hq
    · simp
    · rcases hinit q hq with rfl | rfl | ⟨_, rfl⟩ <;> simp
  · exact (FdManager.entry_store_none hstore hne h).trans h.symm

lemma accept_passesThrough {addr addrlen : Ptr} (hfd : 0 ≤ fd) (h : w.loc.fdm.entry fd = none) :
    PassesThrough O t fuel (.accept fd addr addrlen) fd w ↔
      PassedOn O w (.accept fd addr addrlen) := by
  have hnew := O.accept_new w.out fd addr addrlen hfd
  set w₁ := answered O (.sys (.accept fd addr addrlen)) w with hw₁
  set r := (O.answer w.out (.sys (.accept fd addr addrlen))).1.value with hr
  have hio : doIo O t fuel fd (.accept fd addr addrlen) .read .recv w = .ok (r, w₁) :=
    doIo_unmanaged (FdManager.get_of_entry_none hfd h)
  change _ ↔ (0 ≤ r → w.loc.fdm.size ≤ r → 2 ≤ r)
  by_cases hneg : r < 0
  · exact iff_of_true (passesThrough_of_eq_sys (accept_of_neg hio hneg)) fun h0 =>
      absurd h0 (not_le.2 hneg)
  have hpos : 0 ≤ r := not_lt.1 hneg
  rw [forall_prop_of_true hpos]
  rcases hget : w.loc.fdm.get r with f | _ | c
  · rw [FdManager.get_of_nonneg hpos] at hget
    cases hget
  · have haccept := accept_of_none hio hpos hget
    rw [← FdManager.store_isOk (m := w.loc.fdm) (c := initCtx O r w₁) hpos]
    constructor
    · rintro ⟨v, w', hhook, -⟩
      cases hstore : w.loc.fdm.store r (initCtx O r w₁) with
      | ok m => exact ⟨m, rfl⟩
      | error f =>
          change w₁.loc.fdm.store r (initCtx O r w₁) = _ at hstore
          rw [hstore] at haccept
          cases haccept.symm.trans hhook
    · rintro ⟨m, hstore⟩
      refine passesThrough_made hw₁ hr hpos hnew.symm h hstore ?_
      rw [haccept, show w₁.loc.fdm.store r (initCtx O r w₁) = _ from hstore]
      rfl
  · refine iff_of_true (passesThrough_of_eq_sys (accept_of_some hio hpos hget)) fun hle => ?_
    rw [FdManager.get_of_nonneg hpos, if_pos hle] at hget
    cases hget

/-! ### All calls -/

section Unmanaged

variable (h : w.loc.fdm.get fd = .ok none)

include h

lemma setsockopt_unmanaged {level optname : ℤ} {optval : Ptr} {optlen : ℕ} :
    setsockopt O t fd level optname optval optlen w =
      sys O (.setsockopt fd level optname optval optlen) w := by
  by_cases ht : t.hooked && level == SOL_SOCKET
  · cases hdir : direction optname <;> simp [setsockopt, ht, hdir, h]
  · simp [setsockopt, ht]

lemma ioctl_passesThrough {request : ℕ} {arg : Ptr} :
    PassesThrough O t fuel (.ioctl fd request arg) fd w ↔ PassedOn O w (.ioctl fd request arg) := by
  change _ ↔ (request = FIONBIO → (O.readInt w.out arg).isSome)
  by_cases hreq : request = FIONBIO
  · subst hreq
    rcases hread : O.readInt w.out arg with _ | v
    · refine iff_of_false ?_ (by simp)
      rintro ⟨v, w', hhook, -⟩
      simp [hook, ioctl, hread] at hhook
    · exact iff_of_true (passesThrough_of_eq_sys (ioctl_passed h (by simp) hread)) (by simp)
  · refine iff_of_true (passesThrough_of_eq_sys ?_) (by simp [hreq])
    simp [hook, ioctl, hreq]

lemma fcntl_passesThrough {cmd : Fcntl} :
    PassesThrough O t fuel (.fcntl fd cmd) fd w ↔ PassedOn O w (.fcntl fd cmd) := by
  cases cmd with
  | other cmd arg =>
      constructor
      · rintro ⟨v, w', hhook, hsame, -⟩
        cases hhook
        exact hsame
      · intro hsame
        exact ⟨_, _, rfl, hsame, ⟨[_], rfl, by simp⟩, rfl⟩
  | setfl => exact iff_of_true (passesThrough_of_eq_sys (fcntl_setfl_passed h (by simp))) trivial
  | getfl => exact iff_of_true (passesThrough_of_eq_sys (fcntl_getfl_passed h (by simp))) trivial
  | int | get | lock | owner =>
      exact iff_of_true (passesThrough_of_eq_sys rfl) trivial

lemma connect_passesThrough {addr : Ptr} {addrlen : ℕ} (ht : t.hooked = true) :
    PassesThrough O t fuel (.connect fd addr addrlen) fd w ↔
      PassedOn O w (.connect fd addr addrlen) := by
  have hhook : hook O t fuel (.connect fd addr addrlen) w =
      .ok (-1, { w with loc := { w.loc with errno := EBADF } }) := by
    simp [hook, connect, connectWithTimeout, ht, h]
  constructor
  · rintro ⟨v, w', hhook', hsame, -⟩
    cases hhook.symm.trans hhook'
    exact hsame
  · intro hsame
    exact ⟨_, _, hhook, hsame, ⟨[], by simp, by simp⟩, rfl⟩

end Unmanaged

/-- **On a descriptor without a context, the calls that are passed on pass through.** -/
theorem unmanaged_iff (O : Outside σ) (t : Thread) (ht : t.hooked = true) (fuel : ℕ) (c : Sys)
    (fd : ℤ) (w : State σ) (hfd : 0 ≤ fd) (htarget : c.target = some fd)
    (h : w.loc.fdm.entry fd = none) : PassesThrough O t fuel c fd w ↔ PassedOn O w c := by
  have hget := FdManager.get_of_entry_none hfd h
  cases c <;> cases htarget
  case connect => exact connect_passesThrough hget ht
  case accept => exact accept_passesThrough hfd h
  case close => exact iff_of_true (passesThrough_of_eq_sys (close_of_none hget)) trivial
  case fcntl => exact fcntl_passesThrough hget
  case ioctl => exact ioctl_passesThrough hget
  case setsockopt => exact iff_of_true (passesThrough_of_eq_sys (setsockopt_unmanaged hget)) trivial
  case getsockopt => exact iff_of_true (passesThrough_of_eq_sys rfl) trivial
  -- the read and write families are `do_io`
  all_goals exact iff_of_true (passesThrough_of_eq_sys (doIo_unmanaged hget)) trivial

/-- An outside in which every call but `accept` returns 0. -/
def connected : Outside Unit where
  answer _ q := (match q with
    | .sys (.accept ..) => ⟨-1, EAGAIN⟩
    | _ => ⟨0, 0⟩, ())
  readInt _ _ := some 0
  readTime _ _ := some (0, 0)
  cancelled _ := 0
  fcntl_int _ _ _ := (by decide : -2 ^ 31 ≤ (0 : ℤ) ∧ (0 : ℤ) < 2 ^ 31)
  accept_new _ _ _ _ hs := neg_one_ne hs

theorem unmanaged_iff_read : PassesThrough connected ⟨true, true⟩ 0 (.read 3 0 16) 3 ⟨(), {}, []⟩ :=
  (unmanaged_iff connected ⟨true, true⟩ rfl 0 (.read 3 0 16) 3 ⟨(), {}, []⟩ (by decide) rfl
    (by decide)).2 trivial

/-- `connect` on a descriptor without a context fails with `EBADF` where the underlying call
succeeds, and does not make that call. -/
theorem connect_refused :
    hook connected ⟨true, true⟩ 0 (.connect 3 0 16) ⟨(), {}, []⟩ =
      .ok (-1, ⟨(), { errno := EBADF }, []⟩) ∧
    (connected.answer () (.sys (.connect 3 0 16))).1 = ⟨0, 0⟩ ∧
    ¬PassesThrough connected ⟨true, true⟩ 0 (.connect 3 0 16) 3 ⟨(), {}, []⟩ := by
  have hhook : hook connected ⟨true, true⟩ 0 (.connect 3 0 16) ⟨(), {}, []⟩ =
      .ok (-1, ⟨(), { errno := EBADF }, []⟩) := by decide +kernel
  refine ⟨hhook, rfl, ?_⟩
  rintro ⟨v, w', hhook', ⟨hvalue, -⟩, -⟩
  cases hhook.symm.trans hhook'
  cases hvalue

end Eva01.Hook
