import Eva01.Hook.Blocking

/-!
The timeouts that `setsockopt` sets, and the waits of `do_io` that use them.

The hooked `setsockopt` writes the timeout to the context of the descriptor before it makes the
underlying call, in whole milliseconds, and 0 for a zero `timeval`. So what a wait uses is the
timeout of the last call in its direction, whether that call has succeeded or not; a zero timeout is
a timer that is due at once; and microseconds are dropped. The timeouts keep their meaning in
exactly the cases in which none of this matters (`timeouts_kept_iff`).

Clock readings are in milliseconds, timeouts here in microseconds.
-/

namespace Eva01.Hook

open Eva01.Lib Eva01.Lib.Interact Eva01.Lib.Runs
open Eva01.IOManager (Event)
open Eva01.TimerManager (Threads)

/-! ### Calls -/

/-- A call `setsockopt(fd, SOL_SOCKET, SO_RCVTIMEO or SO_SNDTIMEO, optval, optlen)`, with the
`timeval` at `optval`. -/
structure TimeoutCall where
  dir : Direction
  optval : Ptr
  optlen : ℕ
  sec : ℕ
  usec : ℕ
  deriving DecidableEq, Repr

namespace TimeoutCall

def optname (c : TimeoutCall) : ℤ :=
  match c.dir with
  | .recv => SO_RCVTIMEO
  | .send => SO_SNDTIMEO

def sys (c : TimeoutCall) (fd : ℤ) : Sys := .setsockopt fd SOL_SOCKET c.optname c.optval c.optlen

/-- The `timeval`, in microseconds. -/
def us (c : TimeoutCall) : ℕ := c.sec * 10 ^ 6 + c.usec

/-- What the hooked function makes of it. -/
def ms (c : TimeoutCall) : ℕ := c.sec * 1000 + c.usec / 1000

end TimeoutCall

/-- The last call in a direction. -/
def lastIn (dir : Direction) (calls : List TimeoutCall) : Option TimeoutCall :=
  (calls.filter fun c => c.dir = dir).getLast?

/-- The calls that have succeeded, by the values that they returned. -/
def succeeded (calls : List TimeoutCall) (rets : List ℤ) : List TimeoutCall :=
  ((calls.zip rets).filter fun x => x.2 = 0).map Prod.fst

/-- The timeout that a direction is meant to have, with 0 for none. -/
def meant (dir : Direction) (calls : List TimeoutCall) (rets : List ℤ) : ℕ :=
  (lastIn dir (succeeded calls rets)).elim 0 TimeoutCall.us

/-- One call after the other, with the values that they return. Before each, the caller writes the
`timeval` to `optval`. -/
def setAll {σ : Type} (O : Outside σ) (fill : TimeoutCall → σ → σ) (t : Thread) (fuel : ℕ) (fd : ℤ) :
    List TimeoutCall → Hooked σ (List ℤ)
  | [] => return []
  | c :: calls => do
      poke (fill c)
      let r ← hook O t fuel (c.sys fd)
      let rs ← setAll O fill t fuel fd calls
      return r :: rs

/-! ### Waits -/

/-- The waits among requests: the timeout of the timer that each has, if it has one. -/
def waits : List Request → List (Option ℕ)
  | .iom (.addConditionTimer ms _ _) :: .iom (.addEvent _ _) :: reqs => some ms :: waits reqs
  | .iom (.addEvent _ _) :: reqs => none :: waits reqs
  | _ :: reqs => waits reqs
  | [] => []

/-- The requests of a call whose waits have the timeout `us`: with 0, they have no timer and never
time out; otherwise each has a timer for `us` microseconds, up to the resolution of a millisecond,
and one that is made at the reading `now` is not collected before they have passed. -/
def Uses {γ : Type*} (addr : ℕ → ℕ) (th : Threads γ) (now us : ℕ) (reqs : List Request) : Prop :=
  if us = 0 then ∀ x ∈ waits reqs, x = none
  else
    (∀ x ∈ waits reqs, ∃ ms, x = some ms ∧ us ≤ ms * 1000 ∧ ms * 1000 < us + 1000) ∧
      NeverEarly addr th reqs now fun r => r * 1000 < now * 1000 + us

/-- Every later `do_io` on the descriptor in the direction has the timeout `us`, as long as the
timeout in the context is not set again: whatever mode the user chooses, and whatever its outcomes
and waits are. -/
def Kept {γ : Type*} (addr : ℕ → ℕ) (th : Threads γ) (now : ℕ) (fd : ℤ) (dir : Direction)
    (ctx : FdCtx) (us : ℕ) : Prop :=
  ∀ (m : FdManager) (ctx' : FdCtx), m.get fd = .ok (some ctx') → ctx'.isManaged = true →
    ctx'.getTimeout dir = ctx.getTimeout dir →
    ∀ (t : Thread) (fuel : ℕ) (fn : Sys) (event : Event) (o : Script) (v : ℤ) (w : State Script),
      t.hooked = true → t.iom = true → o.outcomes.length < fuel →
      doIo script t fuel fd fn event dir ⟨o, { fdm := m }, []⟩ = .ok (v, w) →
      Uses addr th now us w.trace

/-- The last call in the direction has stored what it is meant to have, and the deadline fits. -/
def Fits (now us : ℕ) (last : Option TimeoutCall) : Prop :=
  if us = 0 then last = none
  else ∃ c, last = some c ∧ us ≤ c.ms * 1000 ∧ c.ms * 1000 < us + 1000 ∧ now + c.ms < 2 ^ 64

/-! ### What the calls store -/

section Store

variable {σ : Type} {O : Outside σ} {fill : TimeoutCall → σ → σ} {t : Thread} {fuel : ℕ} {fd : ℤ}
  {w : State σ} {ctx : FdCtx} {c : TimeoutCall} {calls : List TimeoutCall} {dir : Direction}

lemma FdCtx.getTimeout_setTimeout (dir' : Direction) (v : ℕ) :
    (ctx.setTimeout dir' v).getTimeout dir = if dir' = dir then v else ctx.getTimeout dir := by
  cases dir <;> cases dir' <;> rfl

lemma direction_optname (c : TimeoutCall) : direction c.optname = some c.dir := by
  unfold direction TimeoutCall.optname
  cases c.dir <;> rfl

lemma asU64_ms (hfit : c.sec * 1000 < 2 ^ 63) (husec : c.usec < 10 ^ 6) :
    asU64 ((c.sec : ℤ) * 1000 + (c.usec : ℤ).tdiv 1000) = c.ms := by
  rw [Int.tdiv_eq_ediv_of_nonneg (by omega)]
  unfold asU64 TimeoutCall.ms
  omega

/-- A hooked `setsockopt` on a managed socket stores first, and then makes the call. -/
lemma setsockopt_managed (ht : t.hooked = true) (hget : w.loc.fdm.get fd = .ok (some ctx))
    (hread : O.readTime w.out c.optval = some (↑c.sec, ↑c.usec)) (hfit : c.sec * 1000 < 2 ^ 63)
    (husec : c.usec < 10 ^ 6) :
    hook O t fuel (c.sys fd) w = sys O (c.sys fd)
      { w with loc := { w.loc with fdm := w.loc.fdm.put fd (ctx.setTimeout c.dir c.ms) } } := by
  simp [hook, TimeoutCall.sys, setsockopt, ht, direction_optname, hget, hread, ← asU64_ms hfit husec]

lemma lastIn_cons (c : TimeoutCall) (calls : List TimeoutCall) :
    lastIn dir (c :: calls) = (lastIn dir calls).or (if c.dir = dir then some c else none) := by
  unfold lastIn
  by_cases hc : c.dir = dir
  · cases hl : (calls.filter fun c => c.dir = dir).getLast? <;> simp [hc, List.getLast?_cons, hl]
  · cases hl : (calls.filter fun c => c.dir = dir).getLast? <;> simp [hc, hl]

/-- The context behind the calls. -/
def FdCtx.after (ctx : FdCtx) (calls : List TimeoutCall) : FdCtx :=
  calls.foldl (fun ctx c => ctx.setTimeout c.dir c.ms) ctx

lemma FdCtx.getTimeout_after : (ctx.after calls).getTimeout dir =
    (lastIn dir calls).elim (ctx.getTimeout dir) TimeoutCall.ms := by
  induction calls generalizing ctx with
  | nil => rfl
  | cons c calls ih =>
    rw [after, List.foldl_cons]
    refine ih.trans ?_
    rw [lastIn_cons, getTimeout_setTimeout]
    cases lastIn dir calls with
    | some c' => rfl
    | none => split <;> rfl

lemma FdCtx.isManaged_after : (ctx.after calls).isManaged = ctx.isManaged := by
  induction calls generalizing ctx with
  | nil => rfl
  | cons c calls ih =>
    have hset : (ctx.setTimeout c.dir c.ms).isManaged = ctx.isManaged := by
      cases c.dir <;> rfl
    exact ih.trans hset

lemma setAll_managed (fuel : ℕ) (ht : t.hooked = true) (hget : w.loc.fdm.get fd = .ok (some ctx))
    (hread : ∀ c ∈ calls, ∀ o, O.readTime (fill c o) c.optval = some (↑c.sec, ↑c.usec))
    (hdom : ∀ c ∈ calls, c.sec * 1000 < 2 ^ 63 ∧ c.usec < 10 ^ 6) :
    ∃ rets w', setAll O fill t fuel fd calls w = .ok (rets, w') ∧ rets.length = calls.length ∧
      w'.loc.fdm.get fd = .ok (some (ctx.after calls)) := by
  induction calls generalizing w ctx with
  | nil => exact ⟨[], w, rfl, rfl, hget⟩
  | cons c calls ih =>
    obtain ⟨hfit, husec⟩ := hdom c List.mem_cons_self
    have hhook : hook O t fuel (c.sys fd) { w with out := fill c w.out } = _ :=
      setsockopt_managed ht hget (hread c List.mem_cons_self _) hfit husec
    set w₁ : State σ := ⟨fill c w.out,
      { w.loc with fdm := w.loc.fdm.put fd (ctx.setTimeout c.dir c.ms) }, w.trace⟩
    have hget₁ : (answered O (.sys (c.sys fd)) w₁).loc.fdm.get fd =
        .ok (some (ctx.setTimeout c.dir c.ms)) := FdManager.get_put_self hget
    obtain ⟨rets, w', hset, hlen, hget'⟩ := ih hget₁
      (fun c' hc' => hread c' (List.mem_cons_of_mem _ hc'))
      (fun c' hc' => hdom c' (List.mem_cons_of_mem _ hc'))
    refine ⟨(O.answer w₁.out (.sys (c.sys fd))).1.value :: rets, w', ?_, congrArg (· + 1) hlen,
      hget'⟩
    simp only [setAll, bind_apply, ok_bind, pure_apply, poke_apply, hhook, sys_apply, hset]

end Store

/-! ### What a wait uses -/

section Waits

variable {γ : Type*} {addr : ℕ → ℕ} {th : Threads γ} {fd : ℤ} {fn : Sys} {event : Event}
  {dir : Direction} {timeout n : ℕ} {reqs : List Request}

lemma waits_wait : waits (waitRequests fd event timeout ++ reqs) =
    (if timeout = forever then none else some timeout) :: waits reqs := by
  unfold waitRequests
  split <;> simp [waits]

lemma waits_rounds (rs : List Ret) :
    ∀ x ∈ waits (rounds fn (waitRequests fd event timeout) rs),
      x = if timeout = forever then none else some timeout := by
  induction rs with
  | nil => exact fun x hx => absurd hx List.not_mem_nil
  | cons r rs ih =>
    have hcall : ∀ reqs, waits (.sys fn :: reqs) = waits reqs := fun reqs => by simp [waits]
    rw [rounds, hcall]
    split
    · intro x hx
      rw [waits_wait] at hx
      rcases List.mem_cons.1 hx with rfl | hx
      · rfl
      · exact ih x hx
    · exact ih

lemma period_rounds (rs : List Ret) :
    ∀ q ∈ rounds fn (waitRequests fd event timeout) rs, ∀ p, q.period = some p → p = timeout := by
  have hwait : ∀ q ∈ waitRequests fd event timeout, ∀ p, q.period = some p → p = timeout := by
    intro q hq p hp
    unfold waitRequests at hq
    split at hq <;> simp only [List.mem_cons, List.not_mem_nil, or_false] at hq <;>
      rcases hq with rfl | rfl | rfl | rfl <;> cases hp
    rfl
  induction rs with
  | nil => exact fun q hq => absurd hq List.not_mem_nil
  | cons r rs ih =>
    intro q hq p hp
    rw [rounds, List.mem_cons, List.mem_append] at hq
    rcases hq with rfl | hq | hq
    · cases hp
    · split at hq
      · exact hwait q hq p hp
      · cases hq
    · exact ih q hq p hp

variable {t : Thread} {fuel : ℕ} {o : Script} {m : FdManager} {ctx : FdCtx} {v : ℤ}
  {w : State Script}

/-- `do_io` on a managed socket makes its call in rounds; in non-blocking mode there is only one. -/
lemma doIo_rounds (ht : t.hooked = true) (hiom : t.iom = true) (hget : m.get fd = .ok (some ctx))
    (hc : ctx.isManaged = true) (hfuel : o.outcomes.length < fuel)
    (h : doIo script t fuel fd fn event dir ⟨o, { fdm := m }, []⟩ = .ok (v, w)) :
    ∃ rs, w.trace = rounds fn (waitRequests fd event (ctx.getTimeout dir)) rs := by
  by_cases huser : ctx.userNonblock = true
  · rw [doIo_nonblock ht hget hc huser] at h
    cases h
    exact ⟨[⟨0, 0⟩], rfl⟩
  · have hdoes : Does fn (waitRequests fd event (ctx.getTimeout dir)) ⟨o, { fdm := m }, []⟩
        (doIo script t fuel fd fn event dir ⟨o, { fdm := m }, []⟩)
        (blocking (o.outcomes.map fn.result) o.wakes) := by
      rw [doIo_block ht hget hc (Bool.eq_false_iff.2 huser)]
      exact doIoLoop_script hiom hfuel
    rw [h] at hdoes
    cases hb : blocking (o.outcomes.map fn.result) o.wakes with
    | none =>
      rw [hb] at hdoes
      cases hdoes
    | some x =>
      rw [hb] at hdoes
      obtain ⟨w', hw, hret⟩ := hdoes
      cases hw
      exact ⟨_, hret.trace⟩

lemma doIo_waits (dir : Direction) (hget : m.get fd = .ok (some ctx)) (hc : ctx.isManaged = true)
    (huser : ctx.userNonblock = false) :
    ∃ w, doIo script ⟨true, true⟩ 3 fd (.read fd 0 0) .read dir
        ⟨{ outcomes := [⟨-1, EAGAIN⟩, ⟨0, 0⟩] }, { fdm := m }, []⟩ = .ok (0, w) ∧
      w.trace = [.sys (.read fd 0 0)] ++
        (waitRequests fd .read (ctx.getTimeout dir) ++ [.sys (.read fd 0 0)]) := by
  have hzero : (0 : ℤ) ≠ -1 := by decide
  rw [doIo_block rfl hget hc huser, doIoLoop_again rfl, waitRetry_script rfl, if_neg,
    doIoLoop_returns]
  · exact ⟨_, rfl, by simp [waited]⟩
  · exact fun h => hzero h.1
  · exact fun h => hzero h.1
  · exact Bool.false_ne_true

section Stored

variable {now us : ℕ} {last : Option TimeoutCall}
  (hlast : ctx.getTimeout dir = last.elim forever TimeoutCall.ms)
  (hms : ∀ c, last = some c → c.ms < forever)

include hlast hms in
lemma timer_of_last :
    (if ctx.getTimeout dir = forever then none else some (ctx.getTimeout dir)) =
      last.map TimeoutCall.ms := by
  rw [hlast]
  cases last with
  | none => exact if_pos rfl
  | some c => exact if_neg (hms c rfl).ne

lemma early_mono (r r' : ℕ) (hr : r ≤ r') (hlt : r' * 1000 < now * 1000 + us) :
    r * 1000 < now * 1000 + us :=
  lt_of_le_of_lt (Nat.mul_le_mul_right _ hr) hlt

include hlast hms

theorem Fits.kept (hth : Reach (Threads.step addr) Free {} th) (h : Fits now us last) :
    Kept addr th now fd dir ctx us := by
  intro m ctx' hget hc hsame t fuel fn event o v w ht hiom hfuel hio
  obtain ⟨rs, htrace⟩ := doIo_rounds ht hiom hget hc hfuel hio
  rw [hsame] at htrace
  have hwaits : ∀ x ∈ waits w.trace, x = last.map TimeoutCall.ms := fun x hx =>
    (waits_rounds rs x (htrace ▸ hx)).trans (timer_of_last hlast hms)
  by_cases hus : us = 0
  · rw [Fits, if_pos hus] at h
    subst h
    rwa [Uses, if_pos hus]
  · rw [Fits, if_neg hus] at h
    obtain ⟨c, rfl, hle, hlt, hdue⟩ := h
    rw [Uses, if_neg hus]
    refine ⟨fun x hx => ⟨c.ms, hwaits x hx, hle, hlt⟩,
      neverEarly_of_deadline hth (htrace ▸ period_rounds rs) early_mono ?_⟩
    rw [hlast, Option.elim_some, u64, Nat.mod_eq_of_lt hdue]
    omega

theorem Kept.fits (hinj : Function.Injective addr) (hth : Reach (Threads.step addr) Free {} th)
    (g : γ) (hget : m.get fd = .ok (some ctx)) (hc : ctx.isManaged = true)
    (h : Kept addr th now fd dir ctx us) : Fits now us last := by
  -- the user chooses the blocking mode
  have hget' : (m.put fd (ctx.setUserNonblock false)).get fd =
      .ok (some (ctx.setUserNonblock false)) := FdManager.get_put_self hget
  have hlast' : (ctx.setUserNonblock false).getTimeout dir = last.elim forever TimeoutCall.ms :=
    hlast
  obtain ⟨w, hio, htrace⟩ := doIo_waits dir hget' hc rfl
  have huses : Uses addr th now us w.trace :=
    h _ _ hget' hc rfl ⟨true, true⟩ 3 _ .read _ 0 w rfl rfl (by decide) hio
  have hwait : last.map TimeoutCall.ms ∈ waits w.trace := by
    rw [htrace, List.singleton_append, waits, waits_wait, timer_of_last hlast' hms]
    · exact List.mem_cons_self
    all_goals simp
  by_cases hus : us = 0
  · rw [Uses, if_pos hus] at huses
    rw [Fits, if_pos hus]
    exact Option.map_eq_none_iff.1 (huses _ hwait)
  · rw [Uses, if_neg hus] at huses
    obtain ⟨hwaits, hearly⟩ := huses
    obtain ⟨ms, hsome, hle, hlt⟩ := hwaits _ hwait
    obtain ⟨c, rfl, rfl⟩ := Option.map_eq_some_iff.1 hsome
    have hidle : ∀ q ∈ [Request.sys (.read fd 0 0)], q.idle := by
      intro q hq
      rw [List.mem_singleton.1 hq]
      exact ⟨rfl, Request.noConfusion⟩
    rw [htrace, hlast', Option.elim_some, waitRequests, if_neg (hms c rfl).ne] at hearly
    have hdue := (neverEarly_iff hinj hth g hidle rfl (by simp [Request.period]) early_mono).1 hearly
    rw [Fits, if_neg hus]
    refine ⟨c, rfl, hle, hlt, ?_⟩
    unfold u64 at hdue
    omega

end Stored

end Waits

/-! ### The timeouts as calls set them -/

section Timeouts

variable {γ : Type*} {addr : ℕ → ℕ} {th : Threads γ} {σ : Type} {t : Thread} {fd : ℤ} {w : State σ}
  {ctx : FdCtx} {calls : List TimeoutCall} {dir : Direction} {c : TimeoutCall}

lemma ms_lt_forever (hfit : c.sec * 1000 < 2 ^ 63) (husec : c.usec < 10 ^ 6) : c.ms < forever := by
  calc c.ms < 2 ^ 63 + 1000 := Nat.add_lt_add hfit (Nat.div_lt_of_lt_mul husec)
    _ ≤ forever := by decide

lemma mem_of_lastIn (h : lastIn dir calls = some c) : c ∈ calls ∧ c.dir = dir := by
  have hmem := List.mem_filter.1 (List.mem_of_getLast? h)
  exact ⟨hmem.1, of_decide_eq_true hmem.2⟩

/-- **A direction keeps the timeout of its last successful call if and only if the last call in it
has stored that timeout, and its deadline fits in 64 bits.** The calls of one direction never change
the timeout of the other. -/
theorem timeouts_kept_iff (O : Outside σ) (fill : TimeoutCall → σ → σ) (fuel : ℕ)
    (calls : List TimeoutCall) (hinj : Function.Injective addr)
    (hth : Reach (Threads.step addr) Free {} th) (g : γ) (ht : t.hooked = true)
    (hget : w.loc.fdm.get fd = .ok (some ctx)) (hc : ctx.isManaged = true)
    (hnew : ∀ dir, ctx.getTimeout dir = forever)
    (hread : ∀ c ∈ calls, ∀ o, O.readTime (fill c o) c.optval = some (↑c.sec, ↑c.usec))
    (hdom : ∀ c ∈ calls, c.sec * 1000 < 2 ^ 63 ∧ c.usec < 10 ^ 6) :
    ∃ rets w' ctx', setAll O fill t fuel fd calls w = .ok (rets, w') ∧
      rets.length = calls.length ∧ w'.loc.fdm.get fd = .ok (some ctx') ∧
      (∀ dir now, Kept addr th now fd dir ctx' (meant dir calls rets) ↔
        Fits now (meant dir calls rets) (lastIn dir calls)) ∧
      ∀ dir, (∀ c ∈ calls, c.dir ≠ dir) → ctx'.getTimeout dir = ctx.getTimeout dir := by
  obtain ⟨rets, w', hset, hlen, hget'⟩ := setAll_managed fuel ht hget hread hdom
  refine ⟨rets, w', ctx.after calls, hset, hlen, hget', fun dir now => ?_, fun dir hdir => ?_⟩
  · have hlast : (ctx.after calls).getTimeout dir =
        (lastIn dir calls).elim forever TimeoutCall.ms := by
      rw [FdCtx.getTimeout_after, hnew]
    have hms : ∀ c, lastIn dir calls = some c → c.ms < forever := by
      intro c hlastc
      obtain ⟨hfit, husec⟩ := hdom c (mem_of_lastIn hlastc).1
      exact ms_lt_forever hfit husec
    have hc' : (ctx.after calls).isManaged = true := FdCtx.isManaged_after.trans hc
    exact ⟨Kept.fits hlast hms hinj hth g hget' hc', Fits.kept hlast hms hth⟩
  · have hnone : lastIn dir calls = none := by
      cases hl : lastIn dir calls with
      | none => rfl
      | some c => exact absurd (mem_of_lastIn hl).2 (hdir c (mem_of_lastIn hl).1)
    rw [FdCtx.getTimeout_after, hnone, Option.elim_none]

end Timeouts

/-- The caller of a script writes a `timeval`. -/
def Script.fill (c : TimeoutCall) (o : Script) : Script :=
  { o with times := Function.update o.times c.optval (some (↑c.sec, ↑c.usec)) }

/-- A new socket with descriptor 3, and the outcomes of the calls on it. -/
def socketWith (outcomes : List Ret) : State Script where
  out := { outcomes }
  loc := { fdm := FdManager.put {} 3 { isSocket := true, fd := 3 } }

theorem timeouts_kept_receiving :
    ∃ w' ctx', setAll script Script.fill ⟨true, true⟩ 0 3 [⟨.recv, 8, 16, 2, 500000⟩]
        (socketWith [⟨0, 0⟩]) = .ok ([0], w') ∧ w'.loc.fdm.get 3 = .ok (some ctx') ∧
      Kept id ({} : Threads ℕ) 10 3 .recv ctx' 2500000 ∧
      Kept id ({} : Threads ℕ) 10 3 .send ctx' 0 := by
  have hget : (socketWith [⟨0, 0⟩]).loc.fdm.get 3 = .ok (some { isSocket := true, fd := 3 }) := by
    decide +kernel
  have hread : ∀ c ∈ [(⟨.recv, 8, 16, 2, 500000⟩ : TimeoutCall)], ∀ o,
      script.readTime (Script.fill c o) c.optval = some (↑c.sec, ↑c.usec) :=
    fun c _ o => Function.update_self c.optval _ o.times
  obtain ⟨rets, w', ctx', hset, -, hget', hkept, -⟩ := timeouts_kept_iff script Script.fill 0
    [⟨.recv, 8, 16, 2, 500000⟩] Function.injective_id (.refl : Reach _ Free {} ({} : Threads ℕ)) 0
    (rfl : (⟨true, true⟩ : Thread).hooked = true) hget rfl (fun dir => by cases dir <;> rfl) hread
    (by decide)
  have hrun : (setAll script Script.fill ⟨true, true⟩ 0 3 [⟨.recv, 8, 16, 2, 500000⟩]
      (socketWith [⟨0, 0⟩])).map Prod.fst = .ok [0] := by decide +kernel
  rw [hset] at hrun
  cases hrun
  refine ⟨w', ctx', hset, hget', (hkept .recv 10).2 ?_, (hkept .send 10).2 rfl⟩
  rw [Fits, if_neg (by decide +kernel)]
  exact ⟨⟨.recv, 8, 16, 2, 500000⟩, by decide +kernel⟩

/-- The timeout that receiving is meant to have after the calls, and the timers of a `read` that
follows. -/
def receiving (calls : List TimeoutCall) (outcomes : List Ret) :
    Except Fail (ℕ × List (Option ℕ)) :=
  let run : Hooked Script ℕ := do
    let rets ← setAll script Script.fill ⟨true, true⟩ 0 3 calls
    let _ ← doIo script ⟨true, true⟩ 3 3 (.read 3 0 8) .read .recv
    return meant .recv calls rets
  (run (socketWith outcomes)).map fun r => (r.1, waits r.2.trace)

/-- A zero timeout is a timer of 0 ms, and so is half a millisecond; and the timeout of a call that
has failed replaces the one of the call before. -/
theorem timeouts_not_kept :
    receiving [⟨.recv, 8, 16, 0, 0⟩] [⟨0, 0⟩, ⟨-1, EAGAIN⟩, ⟨5, 0⟩] = .ok (0, [some 0]) ∧
    receiving [⟨.recv, 8, 16, 0, 500⟩] [⟨0, 0⟩, ⟨-1, EAGAIN⟩, ⟨5, 0⟩] = .ok (500, [some 0]) ∧
    receiving [⟨.recv, 8, 16, 2, 0⟩, ⟨.recv, 8, 4, 1, 0⟩]
      [⟨0, 0⟩, ⟨-1, 22⟩, ⟨-1, EAGAIN⟩, ⟨5, 0⟩] = .ok (2000000, [some 1000]) := by
  decide +kernel

end Eva01.Hook
