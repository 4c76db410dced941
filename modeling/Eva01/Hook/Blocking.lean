import Eva01.Hook.Served

/-!
`do_io` on a socket in blocking mode.

The outside follows a script: the outcomes of the underlying call, in order, and how each wait ends.
A wait ends with `tinfo->cancelled` set when the timeout callback has woken the fiber, or when it
has run as well by the time the flag is read, be it the callback of this wait or of an earlier one.

What a blocking call is expected to do with such a script is `blocking`: it passes over interrupted
calls, waits where the call would block, and returns the first other outcome, or `ETIMEDOUT` at the
end of a wait that has timed out. `do_io` does so, makes one call for each outcome, and leaves no
timer behind (`doIo_blocks`).
-/

namespace Eva01.Hook

open Eva01.Lib Eva01.Lib.Interact Eva01.Lib.Runs
open Eva01.IOManager (Event)
open Eva01.TimerManager (Threads)

/-! ### Scripts -/

/-- What wakes a fiber that waits for a descriptor. -/
inductive Cause
  | readiness
  | timeout
  | cancelEvent
  | cancelAll
  deriving DecidableEq, Repr

/-- The end of a wait; `late` if a timeout callback runs between the wake-up and the moment the flag
is read, or has run before the wait. -/
structure Wake where
  cause : Cause := .readiness
  late : Bool := false
  deriving DecidableEq, Repr

def Wake.timedOut (k : Wake) : Bool := k.cause == .timeout || k.late

/-- What the underlying call can return: `fcntl` an `int`, `accept` a descriptor that was not open. -/
def Sys.result : Sys → Ret → Ret
  | .fcntl _ _, r => if -2 ^ 31 ≤ r.value ∧ r.value < 2 ^ 31 then r else ⟨-1, r.errno⟩
  | .accept s _ _, r => if 0 ≤ s ∧ r.value = s then ⟨-1, EBADF⟩ else r
  | _, r => r

structure Script where
  outcomes : List Ret := []
  wakes : List Wake := []
  /-- How the last wait has ended. -/
  wake : Wake := {}
  /-- The structures that pointers point to. -/
  times : Ptr → Option (ℤ × ℤ) := fun _ => none

/-- The next outcome; beyond the script, all calls are interrupted. -/
def Script.next (o : Script) : Ret := o.outcomes.headD ⟨-1, EINTR⟩

/-- The end of the next wait; beyond the script, all waits end with readiness. -/
def Script.nextWake (o : Script) : Wake := o.wakes.headD {}

/-- An underlying call takes the next outcome, and a wait the next wake-up. `addEvent` succeeds. -/
def Script.answer (o : Script) : Request → Ret × Script
  | .sys c => (c.result o.next, { o with outcomes := o.outcomes.tail })
  | .fstat _ | .soError _ => (o.next, { o with outcomes := o.outcomes.tail })
  | .iom .yield => (⟨0, 0⟩, { o with wake := o.nextWake, wakes := o.wakes.tail })
  | .iom _ => (⟨1, 0⟩, o)

def script : Outside Script where
  answer := Script.answer
  readInt _ _ := none
  readTime o p := o.times p
  cancelled o := if o.wake.timedOut then ETIMEDOUT else 0
  fcntl_int o fd cmd := by
    simp only [Script.answer, Sys.result]
    split
    · assumption
    · exact (by decide : (-2 : ℤ) ^ 31 ≤ -1 ∧ (-1 : ℤ) < 2 ^ 31)
  accept_new o s addr len hs := by
    simp only [Script.answer, Sys.result]
    split
    · intro h
      simp only at h
      omega
    · rename_i h
      exact fun heq => h ⟨hs, heq⟩

/-! ### A blocking call -/

def Ret.interrupted (r : Ret) : Prop := r.value = -1 ∧ r.errno = EINTR

def Ret.again (r : Ret) : Prop := r.value = -1 ∧ r.errno = EAGAIN

instance (r : Ret) : Decidable r.interrupted := inferInstanceAs (Decidable (_ ∧ _))

instance (r : Ret) : Decidable r.again := inferInstanceAs (Decidable (_ ∧ _))

/-- What a blocking call returns, and the number of outcomes it takes for that; `none` if it goes on
beyond them. -/
def blocking : List Ret → List Wake → Option (Ret × ℕ)
  | [], _ => none
  | r :: rs, ks =>
      if r.interrupted then (blocking rs ks).map fun x => (x.1, x.2 + 1)
      else if r.again then
        if (ks.headD {}).timedOut then some (⟨-1, ETIMEDOUT⟩, 1)
        else (blocking rs ks.tail).map fun x => (x.1, x.2 + 1)
      else some (r, 1)

theorem blocking_final {rs : List Ret} {ks : List Wake} {r : Ret} {n : ℕ}
    (h : blocking rs ks = some (r, n)) : ¬r.interrupted ∧ ¬r.again := by
  induction rs generalizing ks n with
  | nil => cases h
  | cons r' rs ih =>
    rw [blocking] at h
    split_ifs at h with hint hagain htime
    · obtain ⟨x, hx, heq⟩ := Option.map_eq_some_iff.1 h
      cases heq
      exact ih hx
    · cases h
      decide
    · obtain ⟨x, hx, heq⟩ := Option.map_eq_some_iff.1 h
      cases heq
      exact ih hx
    · cases h
      exact ⟨hint, hagain⟩

theorem blocking_isSome {rs : List Ret} {r : Ret} (hr : r ∈ rs) (hint : ¬r.interrupted)
    (hagain : ¬r.again) (ks : List Wake) : (blocking rs ks).isSome := by
  induction rs generalizing ks with
  | nil => cases hr
  | cons r' rs ih =>
    rw [blocking]
    split_ifs with h₁ h₂ h₃
    · have hne : r ≠ r' := fun h => hint (h ▸ h₁)
      simpa using ih ((List.mem_cons.1 hr).resolve_left hne) ks
    · rfl
    · have hne : r ≠ r' := fun h => hagain (h ▸ h₂)
      simpa using ih ((List.mem_cons.1 hr).resolve_left hne) ks.tail
    · rfl

/-! ### The loop -/

section Loop

variable {t : Thread} {w : State Script} {fd : ℤ} {fn : Sys} {event : Event} {timeout fuel : ℕ}
  {retry : Hooked Script ℤ} {v : ℤ}

/-- What a wait asks for. -/
def waitRequests (fd : ℤ) (event : Event) (timeout : ℕ) : List Request :=
  if timeout = forever then [.iom (.addEvent fd event), .iom .yield]
  else [.iom (.addConditionTimer timeout fd event), .iom (.addEvent fd event), .iom .yield,
    .iom .timerCancel]

/-- The requests of a loop that gets the results `rs`: a call for each, and a wait behind the ones
that would have blocked. -/
def rounds (fn : Sys) (wait : List Request) : List Ret → List Request
  | [] => []
  | r :: rs => .sys fn :: ((if r.again then wait else []) ++ rounds fn wait rs)

lemma count_rounds (rs : List Ret) :
    (rounds fn (waitRequests fd event timeout) rs).count (.sys fn) = rs.length := by
  induction rs with
  | nil => rfl
  | cons r rs ih =>
    have hwait : (waitRequests fd event timeout).count (.sys fn) = 0 := by
      unfold waitRequests
      split <;> simp
    rw [rounds, List.count_cons_self, List.count_append, ih, List.length_cons]
    split <;> simp [hwait]

/-- A timer is cancelled in the wait that it is made for. -/
lemma balanced_rounds (rs : List Ret) :
    Balanced false (rounds fn (waitRequests fd event timeout) rs) := by
  induction rs with
  | nil => rfl
  | cons r rs ih =>
    have hwait : ∀ reqs, Balanced false reqs →
        Balanced false (waitRequests fd event timeout ++ reqs) := by
      intro reqs h
      unfold waitRequests
      split <;> simpa [Balanced, Request.period] using h
    rw [rounds]
    split
    · simpa [Balanced, Request.period] using hwait _ ih
    · simpa [Balanced, Request.period] using ih

/-- The world behind a wait. -/
def waited (fd : ℤ) (event : Event) (timeout : ℕ) (w : State Script) : State Script where
  out := { w.out with wake := w.out.nextWake, wakes := w.out.wakes.tail }
  loc := { w.loc with errno := 0 }
  trace := w.trace ++ waitRequests fd event timeout

lemma waitRetry_script (hiom : t.iom = true) :
    waitRetry script t fd event timeout retry w =
      if w.out.nextWake.timedOut then
        .ok (-1, { waited fd event timeout w with
                   loc := { (waited fd event timeout w).loc with errno := ETIMEDOUT } })
      else retry (waited fd event timeout w) := by
  have hflag : ETIMEDOUT ≠ 0 := by decide
  by_cases htime : timeout = forever <;> cases hk : w.out.nextWake.timedOut <;>
    simp [waitRetry, iomCall, hiom, htime, script, Script.answer, answered, waited, waitRequests, hk,
      hflag]

lemma answer_sys (o : Script) (c : Sys) :
    script.answer o (.sys c) = (c.result o.next, { o with outcomes := o.outcomes.tail }) := rfl

lemma result_interrupted (c : Sys) : c.result ⟨-1, EINTR⟩ = ⟨-1, EINTR⟩ := by
  cases c with
  | accept s addr len =>
    simp only [Sys.result]
    rw [if_neg (by omega)]
  | fcntl fd cmd => simp [Sys.result]
  | _ => rfl

lemma doIoLoop_interrupted (h : (fn.result w.out.next).interrupted) :
    doIoLoop script t fd fn event timeout (fuel + 1) w =
      doIoLoop script t fd fn event timeout fuel (answered script (.sys fn) w) := by
  simp only [doIoLoop, bind_apply, sys_apply, ok_bind, getErrno_apply, ite_apply, answered_errno,
    answer_sys]
  exact if_pos h

lemma doIoLoop_returns (hint : ¬(fn.result w.out.next).interrupted)
    (hagain : ¬(fn.result w.out.next).again) :
    doIoLoop script t fd fn event timeout (fuel + 1) w =
      .ok ((fn.result w.out.next).value, answered script (.sys fn) w) := by
  simp only [doIoLoop, bind_apply, sys_apply, ok_bind, getErrno_apply, ite_apply, answered_errno,
    answer_sys, pure_apply]
  exact (if_neg hint).trans (if_neg hagain)

/-- Beyond the script, the loop does not end. -/
lemma doIoLoop_exhausted (h : w.out.outcomes = []) :
    doIoLoop script t fd fn event timeout fuel w = .error .fuel := by
  induction fuel generalizing w with
  | zero => rfl
  | succ fuel ih =>
    have hnext : fn.result w.out.next = ⟨-1, EINTR⟩ := by
      rw [Script.next, h]
      exact result_interrupted fn
    rw [doIoLoop_interrupted (by rw [hnext]; exact ⟨rfl, rfl⟩)]
    exact ih (by simp [answer_sys, h])

/-- What the loop leaves when it returns `r` after `n` calls. -/
structure Returns (fn : Sys) (wait : List Request) (w : State Script) (r : Ret) (n : ℕ)
    (w' : State Script) : Prop where
  errno : w'.loc.errno = r.errno
  enough : n ≤ w.out.outcomes.length
  outcomes : w'.out.outcomes = w.out.outcomes.drop n
  trace : w'.trace = w.trace ++ rounds fn wait ((w.out.outcomes.map fn.result).take n)

/-- What the loop does: it goes on beyond the script, or returns. -/
def Does (fn : Sys) (wait : List Request) (w : State Script) (x : Except Fail (ℤ × State Script)) :
    Option (Ret × ℕ) → Prop
  | none => x = .error .fuel
  | some (r, n) => ∃ w', x = .ok (r.value, w') ∧ Returns fn wait w r n w'

section Does

variable {wait : List Request} {r : Ret} {rs : List Ret} {w₁ : State Script}
  {x : Except Fail (ℤ × State Script)} {res : Option (Ret × ℕ)}

lemma Does.after_round (h : Does fn wait w₁ x res) (hrs : w.out.outcomes = r :: rs)
    (hout : w₁.out.outcomes = rs)
    (htrace : w₁.trace = w.trace ++ .sys fn :: if (fn.result r).again then wait else []) :
    Does fn wait w x (res.map fun y => (y.1, y.2 + 1)) := by
  cases res with
  | none => exact h
  | some y =>
    obtain ⟨w', hx, herrno, henough, houtcomes, htrace'⟩ := h
    rw [hout] at henough houtcomes htrace'
    refine ⟨w', hx, herrno, ?_, ?_, ?_⟩
    · rw [hrs, List.length_cons]
      exact Nat.succ_le_succ henough
    · rw [houtcomes, hrs, List.drop_succ_cons]
    · rw [htrace', htrace, hrs, List.map_cons, List.take_succ_cons, rounds, List.append_assoc]
      rfl

lemma Does.last (w₁ : State Script) (hrs : w.out.outcomes = r :: rs) (hout : w₁.out.outcomes = rs)
    (htrace : w₁.trace = w.trace ++ .sys fn :: if (fn.result r).again then wait else []) :
    Does fn wait w (.ok ((⟨v, w₁.loc.errno⟩ : Ret).value, w₁)) (some (⟨v, w₁.loc.errno⟩, 1)) := by
  refine ⟨w₁, rfl, rfl, by simp [hrs], by rw [hout, hrs]; rfl, ?_⟩
  rw [htrace, hrs]
  simp [rounds]

end Does

theorem doIoLoop_script (hiom : t.iom = true) (hfuel : w.out.outcomes.length < fuel) :
    Does fn (waitRequests fd event timeout) w (doIoLoop script t fd fn event timeout fuel w)
      (blocking (w.out.outcomes.map fn.result) w.out.wakes) := by
  -- over the outcomes: each round takes one
  induction hrs : w.out.outcomes generalizing w fuel with
  | nil => exact doIoLoop_exhausted hrs
  | cons r rs ih =>
    obtain ⟨fuel, rfl⟩ := Nat.exists_eq_succ_of_ne_zero (Nat.ne_zero_of_lt hfuel)
    have hnext : w.out.next = r := by rw [Script.next, hrs, List.headD_cons]
    have hlen : rs.length < fuel := by
      rw [hrs, List.length_cons] at hfuel
      omega
    set w₁ := answered script (.sys fn) w with hw₁
    have hrs₁ : w₁.out.outcomes = rs := by
      rw [hw₁, answered_out, answer_sys, hrs, List.tail_cons]
    have hwake : w₁.out.nextWake = w.out.wakes.headD {} := rfl
    have hret : (fn.result r).again → (script.answer w.out (.sys fn)).1 = ⟨-1, EAGAIN⟩ := by
      rintro ⟨hvalue, herrno⟩
      rw [answer_sys, hnext, ← hvalue, ← herrno]
    have hcall : ¬(fn.result r).again → w₁.trace = w.trace ++ .sys fn ::
        if (fn.result r).again then waitRequests fd event timeout else [] := fun hagain => by
      rw [if_neg hagain, hw₁, answered_trace]
    have hwait : (fn.result r).again → (waited fd event timeout w₁).trace = w.trace ++ .sys fn ::
        if (fn.result r).again then waitRequests fd event timeout else [] := fun hagain => by
      rw [if_pos hagain, waited, hw₁, answered_trace, List.append_assoc]
      rfl
    rw [List.map_cons, blocking]
    split_ifs with hint hagain htime
    · have hagain : ¬(fn.result r).again := fun h => absurd (hint.2.symm.trans h.2) (by decide)
      rw [doIoLoop_interrupted (hnext ▸ hint)]
      exact (ih (w := w₁) (hrs₁ ▸ hlen) hrs₁).after_round hrs hrs₁ (hcall hagain)
    · rw [doIoLoop_again (hret hagain), waitRetry_script hiom, if_pos (hwake ▸ htime)]
      exact .last { waited fd event timeout w₁ with
        loc := { (waited fd event timeout w₁).loc with errno := ETIMEDOUT } } hrs hrs₁ (hwait hagain)
    · rw [doIoLoop_again (hret hagain), waitRetry_script hiom, if_neg (hwake ▸ htime)]
      have hrest := ih (w := waited fd event timeout w₁) (hrs₁ ▸ hlen) hrs₁
      exact hrest.after_round hrs hrs₁ (hwait hagain)
    · rw [doIoLoop_returns (hnext ▸ hint) (hnext ▸ hagain), hnext]
      have herrno : w₁.loc.errno = (fn.result r).errno :=
        congrArg Ret.errno (congrArg fn.result hnext)
      have hlast := Does.last (v := (fn.result r).value) w₁ hrs hrs₁ (hcall hagain)
      rwa [herrno] at hlast

end Loop

/-! ### The call -/

/-- **`do_io` gives blocking semantics.** On a worker, for every socket in blocking mode, and for
every script: `do_io` returns what `blocking` says, with its `errno`; this is neither an
interruption nor that the call would block. It has called the function once for each outcome taken,
with a wait behind each call that would have blocked, and has asked for nothing else; and in every
interleaving of its requests with the calls of other threads on the timers, none of its timers is in
the set when it is through. It returns whenever one of the outcomes is neither an interruption nor
that the call would block; if `blocking` goes on beyond the script, so does `do_io`. -/
theorem doIo_blocks {γ : Type*} {addr : ℕ → ℕ} (hinj : Function.Injective addr) {th : Threads γ}
    (hth : Reach (Threads.step addr) Free {} th) (g : γ) {t : Thread} (ht : t.hooked = true)
    (hiom : t.iom = true) {fd : ℤ} {c : FdCtx} {w : State Script}
    (hget : w.loc.fdm.get fd = .ok (some c)) (hc : c.isManaged = true)
    (huser : c.userNonblock = false) (fn : Sys) (event : Event) (dir : Direction) {fuel : ℕ}
    (hfuel : w.out.outcomes.length < fuel) :
    (∀ r n, blocking (w.out.outcomes.map fn.result) w.out.wakes = some (r, n) →
      ∃ w' reqs, doIo script t fuel fd fn event dir w = .ok (r.value, w') ∧
        w'.loc.errno = r.errno ∧ ¬r.interrupted ∧ ¬r.again ∧
        w'.trace = w.trace ++ reqs ∧ reqs.count (.sys fn) = n ∧
        reqs = rounds fn (waitRequests fd event (c.getTimeout dir))
          ((w.out.outcomes.map fn.result).take n) ∧
        w'.out.outcomes = w.out.outcomes.drop n ∧
        (∃ s, Serves addr th reqs s ∧ s.Through) ∧
        ∀ s, Serves addr th reqs s → s.Through → ∀ m ∈ s.made, m.timer ∉ s.threads.mgr.timers) ∧
    (∀ r ∈ w.out.outcomes.map fn.result, ¬r.interrupted → ¬r.again →
      (blocking (w.out.outcomes.map fn.result) w.out.wakes).isSome) ∧
    (blocking (w.out.outcomes.map fn.result) w.out.wakes = none →
      doIo script t fuel fd fn event dir w = .error .fuel) := by
  have hloop : Does fn (waitRequests fd event (c.getTimeout dir)) w
      (doIo script t fuel fd fn event dir w)
      (blocking (w.out.outcomes.map fn.result) w.out.wakes) := by
    rw [doIo_block ht hget hc huser]
    exact doIoLoop_script hiom hfuel
  refine ⟨fun r n hr => ?_, fun r hr hint hagain => blocking_isSome hr hint hagain _, fun hnone => ?_⟩
  · rw [hr] at hloop
    obtain ⟨w', hio, hret⟩ := hloop
    obtain ⟨hint, hagain⟩ := blocking_final hr
    refine ⟨w', _, hio, hret.errno, hint, hagain, hret.trace, ?_, rfl, hret.outcomes,
      exists_through hinj hth (balanced_rounds _) g .refl,
      fun s hs => none_left hinj hth (balanced_rounds _) hs⟩
    rw [count_rounds, List.length_take, List.length_map, Nat.min_eq_left hret.enough]
  · rw [hnone] at hloop
    exact hloop

/-- A `read` that is interrupted, then waits with a timeout, and then returns 5. -/
def reading : State Script where
  out := { outcomes := [⟨-1, EINTR⟩, ⟨-1, EAGAIN⟩, ⟨5, 0⟩], wakes := [{ cause := .cancelEvent }] }
  loc := { fdm := FdManager.put {} 3 { isSocket := true, fd := 3, recvTimeout := 100 } }

theorem doIo_blocks_reading :
    ∃ w' reqs, doIo script ⟨true, true⟩ 4 3 (.read 3 0 8) .read .recv reading = .ok (5, w') ∧
      w'.trace = reqs ∧ reqs.count (.sys (.read 3 0 8)) = 3 ∧
      (∃ s : Served ℕ, Serves id {} reqs s ∧ s.Through) ∧
      ∀ s : Served ℕ, Serves id {} reqs s → s.Through →
        ∀ m ∈ s.made, m.timer ∉ s.threads.mgr.timers := by
  have hget : reading.loc.fdm.get 3 = .ok (some { isSocket := true, fd := 3, recvTimeout := 100 }) := by
    decide +kernel
  obtain ⟨hret, -, -⟩ := doIo_blocks (γ := ℕ) Function.injective_id .refl 0 (t := ⟨true, true⟩) rfl rfl
    hget rfl rfl (.read 3 0 8) .read .recv (by decide : 3 < 4)
  obtain ⟨w', reqs, hio, -, -, -, htrace, hn, -, -, hthrough, hleft⟩ := hret ⟨5, 0⟩ 3 (by decide +kernel)
  exact ⟨w', reqs, hio, htrace, hn, hthrough, hleft⟩

end Eva01.Hook
