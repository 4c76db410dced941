import Eva01.Runtime.Tokens

/-!
What one step of a worker does to the tokens and holders of the fibers, to the fibers themselves,
and to what the place of a worker in the code says about the state of the fiber it has (`Linked`).
A worker that looks at its fiber after `Fiber::call` sees the state it left the fiber in, provided
that nobody else has the fiber.
-/

namespace Eva01.Runtime

open Eva01.IOManager (Event Events Report Assertion Fds Target sizeInc sizeDec)
open Eva01.Scheduler (Selected Selects)
open Eva01.Lib.Runs

variable {κ : Type*} {n N : ℕ}

/-! ### Fibers and the code that has them -/

/-- A context that can be swapped in, other than that of a function just put into a fiber. -/
def Ctx.Saved (c : Ctx κ N) : Prop := (∃ k, c = .entry (some (.user k))) ∨ ∃ r, c = .at r

lemma Ctx.Saved.ne_dead {c : Ctx κ N} (h : c.Saved) : c ≠ .dead := by
  rcases h with ⟨k, rfl⟩ | ⟨r, rfl⟩ <;> nofun

/-- A fiber that waits to be resumed. -/
structure Resumable (fb : Fiber κ N) : Prop where
  state : fb.state = .ready ∨ fb.state = .suspend
  ctx : fb.ctx.Saved

/-- The state of a fiber that is at a point of its code. -/
def Code.state : Code κ N → State
  | .yieldSwap st _ | .finSwap st => st
  | _ => .running

/-- The states that are written on a yield and at the end of a function; and nothing is behind the
last yield. -/
def Code.Proper : Code κ N → Prop
  | .yieldState st _ | .yieldSwap st _ => st = .ready ∨ st = .suspend
  | .finState st | .finSwap st => st.isDone = true
  | .dead => False
  | _ => True

/-- What the place of a worker says about the fiber it has. -/
def Linked (fibers : ℕ → Fiber κ N) : Pc κ N → Prop
  | .call .fiber f => Resumable (fibers f)
  | .call (.func g T) f => fibers f = { ctx := .entry (some g), ticket := some T }
  | .swapIn .fiber f => (fibers f).state = .running ∧ (fibers f).ctx.Saved
  | .swapIn (.func g T) f =>
      fibers f = { state := .running, ctx := .entry (some g), ticket := some T }
  | .exec _ f c => (fibers f).state = c.state ∧ c.Proper
  | .back _ f st | .check _ f st =>
      (fibers f).state = st ∧ (st.isDone = true ∨ Resumable (fibers f))
  | .checkDone f st =>
      (fibers f).state = st ∧ st ≠ .ready ∧ (st.isDone = true ∨ Resumable (fibers f))
  | .requeue _ f => Resumable (fibers f)
  | .retire f => (fibers f).state.isDone = true
  | _ => True

lemma Resumable.not_done {fb : Fiber κ N} (h : Resumable fb) : fb.state.isDone = false := by
  rcases h.state with hs | hs <;> rw [hs] <;> rfl

lemma Resumable.not_running {fb : Fiber κ N} (h : Resumable fb) : fb.state ≠ .running := by
  rcases h.state with hs | hs <;> rw [hs] <;> decide

section Steps

variable {S : Setup κ n N} {i : Fin n} {s s' : Shared κ N} {w w' : Worker κ N} {F : ℕ}

/-! ### Tokens and holders over one step of a worker -/

lemma Worker.token_mk (pc : Pc κ N) (ff : Option ℕ) (d : Bool) :
    Worker.token F ⟨pc, ff, d⟩ = pc.token F + (ff.map (one F)).getD 0 := rfl

lemma Worker.holds_mk (pc : Pc κ N) (ff : Option ℕ) (d : Bool) :
    Worker.holds F ⟨pc, ff, d⟩ = pc.hand F + pc.runs F + (ff.map (one F)).getD 0 := rfl

lemma sum_took {tk : Job κ N} {rest : List (Job κ N)} (h : S.sel s.selectable i s.tasks = .took tk rest)
    (v : Job κ N → ℕ) : (s.tasks.map v).sum = v tk + (rest.map v).sum := by
  obtain ⟨-, -, pre, post, htasks, rfl⟩ := S.selects.took h
  rw [htasks]
  simp only [List.map_append, List.map_cons, List.sum_append, List.sum_cons]
  omega

lemma Shared.token_took {tk : Job κ N} {rest : List (Job κ N)}
    (h : S.sel s.selectable i s.tasks = .took tk rest) :
    Shared.token F { s with tasks := rest } + tk.work.token F = s.token F := by
  have hsum := sum_took h fun tk => tk.work.token F
  simp only [Shared.token, Shared.slots]
  omega

lemma Shared.queued_took {tk : Job κ N} {rest : List (Job κ N)}
    (h : S.sel s.selectable i s.tasks = .took tk rest) :
    Shared.queued F { s with tasks := rest } + tk.work.holds F = s.queued F := by
  have hsum := sum_took h fun tk => tk.work.holds F
  simp only [Shared.queued]
  omega

/-- The functions of expired timers take their tokens along. -/
lemma Shared.token_expired {now : ℕ} {m : TimerManager (Func κ N)} {gs : List (Func κ N)}
    (hall : s.timers.All fun g r => r = true → g.wakes F = 0)
    (h : s.timers.getExpiredFuncs S.addr now = (m, gs)) :
    Shared.token F { s with timers := m } + (gs.map (Func.wakes F)).sum = s.token F := by
  have hw := TimerManager.weight_getExpiredFuncs S.addr now hall
  rw [h] at hw
  simp only [Shared.token, Shared.slots] at hw ⊢
  omega

lemma Pc.token_expired (gs : List (Func κ N)) (evs : List (PollEvent N)) :
    Pc.token F (if gs.isEmpty then .events evs else .expireSched gs evs) =
      (gs.map (Func.wakes F)).sum := by
  cases gs <;> rfl

lemma Ctx.token_entry (g : Func κ N) (f : ℕ) :
    (Ctx.entry (some g)).code.token F f = one F f + g.wakes F := by
  cases g <;> simp [Ctx.code, Code.token, Code.registered, Code.wakes, Func.wakes]

lemma Ctx.Saved.token {c : Ctx κ N} (h : c.Saved) (f : ℕ) : c.code.token F f = one F f := by
  rcases h with ⟨k, rfl⟩ | ⟨r, rfl⟩
  · rfl
  · cases r <;> rfl

/-- The fiber that is swapped in has its own token, and that of the one it wakes first. -/
lemma Linked.token_code {b : Branch κ N} {f : ℕ} (h : Linked s.fibers (.swapIn b f)) :
    (s.fibers f).ctx.code.token F f = one F f + b.wakes F := by
  cases b with
  | fiber => exact Ctx.Saved.token h.2 f
  | func g T =>
      have hfb : s.fibers f = { state := .running, ctx := .entry (some g), ticket := some T } := h
      rw [hfb]
      exact Ctx.token_entry g f

lemma not_suspend_of_done {st : State} (h : st.isDone = true) : st ≠ .suspend := by
  rintro rfl
  cases h

theorem WorkerStep.token_le (h : WorkerStep S i s w s' w') (hl : Linked s.fibers w.pc)
    (hall : s.timers.All fun g r => r = true → g.wakes F = 0) :
    s'.token F + w'.token F ≤ s.token F + w.token F + born s s' F := by
  cases h with
  | selectNothing | selectSpins | selectFails | tickleSkip | tickleRead | tickleWrite
  | dispatchNone | dispatchFiber | callFails | call | back | idleEnds | idleTest | incIdle
  | decIdle | stopTimers | stopTest | stopActive | stopBusy | stopYes | stopNo | wait | eintr | poll
  | expireNow | expireNone | expireRead | eventsEnd | eventsTickle | drainEnd
  | checkFunc => exact Nat.le_add_right _ _
  | drain =>
      rw [Shared.token_pipe s (s.pipe - 256)]
      exact Nat.le_add_right _ _
  | @poppedNone ff d need => cases need <;> exact Nat.le_add_right _ _
  | @poppedSome ff d need tk => cases need <;> exact Nat.le_add_right _ _
  | @selectTook ff d tk rest hsel hok hlock =>
      have hs := Shared.token_took (F := F) hsel
      simp only [Worker.token_mk, Pc.token, jobToken]
      omega
  | @dispatchDone ff d f thr hdone =>
      simp only [Worker.token_mk, Pc.token, jobToken]
      omega
  | @dispatchReset d f T g thr =>
      simp only [Shared.token_setFiber, Worker.token_mk, Pc.token, jobToken, Work.token, Branch.wakes,
        Option.map_some, Option.map_none, Option.getD_some, Option.getD_none]
      omega
  | @dispatchNew d T g thr =>
      have hborn : one F s.nextFiber = born s (s.newFiber g T) F := one_nextFiber rfl
      have hs : (s.newFiber g T).token F = s.token F := rfl
      simp only [Worker.token_mk, Pc.token, jobToken, Work.token, Branch.wakes]
      omega
  | @swapIn ff d b f =>
      have hs : Shared.token F { s with trace := s.trace ++ s.began i f } = s.token F := rfl
      have htok := Linked.token_code (F := F) hl
      simp only [Worker.token_mk, Pc.token]
      omega
  | @code ff d b f c c' s' hc =>
      have := hc.token_le (F := F)
      simp only [Worker.token_mk, Pc.token]
      omega
  | @yieldSwap ff d b f st r =>
      simp only [Shared.token_setFiber, Worker.token_mk, Pc.token, Code.token, Code.registered,
        Code.wakes, decide_eq_true_eq]
      omega
  | @finSwap ff d b f st =>
      simp only [Shared.token_setFiber, Worker.token_mk, Pc.token, Code.token, Code.registered,
        Code.wakes, Bool.false_eq_true, if_false]
      split <;> omega
  | @checkReady ff d b f st hst =>
      have hne : st ≠ .suspend := by
        rw [← hl.1, hst]
        decide
      simp only [Worker.token_mk, Pc.token, if_neg hne]
      omega
  | checkFiber | checkLeft =>
      simp only [Worker.token_mk, Pc.token]
      omega
  | @requeue ff d b f hlock =>
      rw [Shared.token_schedule_fiber]
      simp only [Worker.token_mk, Pc.token]
      omega
  | @checkDone ff d f st hdone =>
      have hne : st ≠ .suspend := not_suspend_of_done (hl.1 ▸ hdone)
      simp only [Worker.token_mk, Pc.token, if_neg hne]
      omega
  | @retire ff d f =>
      simp only [Shared.token_setFiber, Worker.token_mk, Pc.token, Option.map_some, Option.getD_some]
      omega
  | @expireWrite ff d now evs m gs hexp =>
      have hs := Shared.token_expired hall hexp
      rw [Worker.token_mk, Worker.token_mk, Pc.token_expired]
      simp only [Pc.token]
      omega
  | @expireSched ff d gs evs hlock =>
      rw [Shared.token_schedule, Shared.sum_func]
      simp only [Worker.token_mk, Pc.token]
      omega
  | eventsIo hs =>
      have := (event_effect (F := F) rfl hs).1
      simp only [Worker.token_mk, Pc.token]
      omega

/-- **A worker gets a fiber only out of the task list**, and only a wake-up puts one there that was
with nobody. -/
theorem WorkerStep.holds_le (h : WorkerStep S i s w s' w') :
    s'.queued F + w'.holds F ≤
      s.queued F + w.holds F + ((w.pc.woken S s).map (one F)).sum + born s s' F := by
  cases h with
  | selectNothing | selectSpins | selectFails | tickleSkip | tickleRead | tickleWrite
  | dispatchNone | callFails | call | swapIn | yieldSwap | finSwap | back | checkReady
  | checkFunc | checkDone | idleEnds | idleTest | incIdle | decIdle | stopTimers | stopTest | stopActive
  | stopBusy | stopYes | stopNo | wait | eintr
  | poll | expireNow | expireNone | expireRead | eventsEnd | eventsTickle | drainEnd =>
      exact (Nat.le_add_right _ _).trans (Nat.le_add_right _ _)
  | drain =>
      rw [Shared.queued_pipe s (s.pipe - 256)]
      exact (Nat.le_add_right _ _).trans (Nat.le_add_right _ _)
  | @poppedNone ff d need =>
      cases need <;> exact (Nat.le_add_right _ _).trans (Nat.le_add_right _ _)
  | @poppedSome ff d need tk =>
      cases need <;> exact (Nat.le_add_right _ _).trans (Nat.le_add_right _ _)
  | @selectTook ff d tk rest hsel hok hlock =>
      have hs := Shared.queued_took (F := F) hsel
      simp only [Worker.holds_mk, Pc.hand, Pc.runs, jobHolds]
      omega
  | dispatchDone | checkFiber | checkLeft =>
      simp only [Worker.holds_mk, Pc.hand, Pc.runs, jobHolds]
      omega
  | dispatchFiber =>
      simp only [Worker.holds_mk, Pc.hand, Pc.runs, jobHolds, Work.holds]
      omega
  | @dispatchReset d f T g thr =>
      simp only [Shared.queued_setFiber, Worker.holds_mk, Pc.hand, Pc.runs, jobHolds, Work.holds,
        Option.map_some, Option.map_none, Option.getD_some, Option.getD_none]
      omega
  | @dispatchNew d T g thr =>
      have hborn : one F s.nextFiber = born s (s.newFiber g T) F := one_nextFiber rfl
      have hs : (s.newFiber g T).queued F = s.queued F := rfl
      simp only [Worker.holds_mk, Pc.hand, Pc.runs, jobHolds, Work.holds]
      omega
  | @code ff d b f c c' s' hc =>
      have hq := hc.queued_le (F := F) b
      simp only [Worker.holds_mk, Pc.hand, Pc.runs]
      omega
  | @requeue ff d b f hlock =>
      rw [Shared.queued_schedule_fiber]
      simp only [Worker.holds_mk, Pc.hand, Pc.runs]
      omega
  | @retire ff d f =>
      simp only [Shared.queued_setFiber, Worker.holds_mk, Pc.hand, Pc.runs, Option.map_some,
        Option.getD_some]
      omega
  | @expireWrite ff d now evs m gs hexp =>
      have hs : Shared.queued F { s with timers := m } = s.queued F := rfl
      simp only [Worker.holds_mk]
      cases gs <;> simp [Pc.hand, Pc.runs, hs] <;> omega
  | @expireSched ff d gs evs hlock =>
      rw [Shared.queued_schedule, Shared.sum_holds_func]
      exact (Nat.le_add_right _ _).trans (Nat.le_add_right _ _)
  | @eventsIo ff d fd r evs s' hs =>
      have hq := (event_effect (F := F) rfl hs).2
      have hwoken : Pc.woken S s (.events (.io fd r :: evs)) = s.fired (.scheduleEvent fd r) := rfl
      simp only [Worker.holds_mk, Pc.hand, Pc.runs, hwoken]
      omega

lemma Work.holds_le_token (x : Work κ N) : x.holds F ≤ x.token F := by
  cases x with
  | fiber f => exact le_rfl
  | func g T => exact Nat.zero_le _

lemma Shared.queued_add_slots_le : s.queued F + s.slots F ≤ s.token F := by
  have hq : s.queued F ≤ (s.tasks.map fun tk => tk.work.token F).sum :=
    List.sum_le_sum fun tk _ => tk.work.holds_le_token
  simp only [Shared.token]
  omega

lemma Pc.hand_le_token (pc : Pc κ N) : pc.hand F ≤ pc.token F := by
  cases pc with
  | popped tk | tickleRead tk | tickleWrite tk | dispatch tk =>
      cases tk with
      | none => exact le_rfl
      | some tk => exact tk.work.holds_le_token
  | _ => exact Nat.zero_le _

/-- **What is woken has its token in a way to wake it**, apart from those of the fibers that are in
the task list, in the hands of the worker or kept by it. -/
theorem woken_le :
    s.queued F + (w.pc.hand F + w.own F) + ((w.pc.woken S s).map (one F)).sum ≤
      s.token F + w.token F := by
  have hs := Shared.queued_add_slots_le (s := s) (F := F)
  have hh := w.pc.hand_le_token (F := F)
  have hw : w.token F = w.pc.token F + w.own F := rfl
  have hnone : w.pc.woken S s = [] → s.queued F + (w.pc.hand F + w.own F) +
      ((w.pc.woken S s).map (one F)).sum ≤ s.token F + w.token F := by
    intro hnil
    rw [hnil]
    simp only [List.map_nil, List.sum_nil]
    omega
  have hfired : ∀ o : IOManager.Op N ℕ κ, o.isAdd = false → w.pc.woken S s = s.fired o →
      s.queued F + (w.pc.hand F + w.own F) + ((w.pc.woken S s).map (one F)).sum ≤
        s.token F + w.token F := by
    intro o ho hwoken
    have hslots := fired_le_slots (s := s) (F := F) ho
    rw [hwoken]
    omega
  obtain ⟨pc, ff, d⟩ := w
  cases pc with
  | exec b f c =>
      cases hop : c.eventOp S with
      | some r =>
          obtain ⟨ho, -, -⟩ := Code.eventOp_plain (F := F) (f := f) hop
          exact hfired r.1 ho (Pc.woken_event hop)
      | none =>
          cases c with
          | wake f' =>
              simp only [Worker.token_mk, Pc.woken, Pc.hand, Pc.token, Code.token, Code.registered,
                Code.wakes, Worker.own, List.map_cons, List.map_nil, List.sum_cons, List.sum_nil]
              omega
          | _ => exact hnone (by simp only [Pc.woken, hop])
  | events evs =>
      cases evs with
      | nil => exact hnone rfl
      | cons ev evs =>
          cases ev with
          | tickle => exact hnone rfl
          | io fd r => exact hfired _ rfl rfl
  | _ => exact hnone rfl

/-! ### The fibers over one step -/

/-- What the sections on events and the calls of `schedule` leave alone. -/
structure Frame (s s' : Shared κ N) : Prop where
  fibers : s'.fibers = s.fibers
  nextFiber : s'.nextFiber = s.nextFiber
  timers : s'.timers = s.timers
  infos : s'.infos = s.infos
  nextInfo : s'.nextInfo = s.nextInfo
  active : s'.active = s.active
  idle : s'.idle = s.idle
  locked : s'.locked = s.locked
  autoStop : s'.autoStop = s.autoStop
  stopping : s'.stopping = s.stopping
  clock : s'.clock = s.clock
  trace : s'.trace = s.trace
  finished : s'.finished = s.finished
  suspended : s'.suspended = s.suspended

lemma event_frame {o : IOManager.Op N ℕ κ} (h : s.event o = some s') : Frame s s' := by
  rcases s.event_cases h with ⟨a, -, rfl⟩ | ⟨out, -, -, rfl⟩
  · constructor <;> rfl
  · unfold Shared.deliver
    split <;> constructor <;> rfl

lemma addEvent_frame {f : ℕ} {a : Adding κ N} : Frame s (s.addEvent f a) := by
  unfold Shared.addEvent
  split <;> constructor <;> rfl

lemma CodeStep.counters {f : ℕ} {c c' : Code κ N} (h : CodeStep S s f c s' c') :
    s'.active = s.active ∧ s'.idle = s.idle := by
  cases h with
  | event _ hs => exact ⟨(event_frame hs).active, (event_frame hs).idle⟩
  | evAdd => exact ⟨addEvent_frame.active, addEvent_frame.idle⟩
  | timerAdd hs =>
      exact ⟨(congrArg (fun r => r.1.active) hs).symm, (congrArg (fun r => r.1.idle) hs).symm⟩
  | _ => exact ⟨rfl, rfl⟩

lemma born_eq_zero (h : s'.nextFiber = s.nextFiber) : born s s' F = 0 := by
  unfold born
  rw [h]
  exact if_neg (by omega)

lemma born_ne_zero (h : s'.nextFiber = s.nextFiber + 1) (hb : born s s' F ≠ 0) :
    F = s.nextFiber := by
  unfold born at hb
  rw [h] at hb
  by_contra hne
  exact hb (if_neg (by omega))

lemma ne_of_born_eq_zero (h : s'.nextFiber = s.nextFiber + 1) (hb : born s s' F = 0) :
    F ≠ s.nextFiber := by
  rintro rfl
  unfold born at hb
  rw [if_pos (by omega)] at hb
  cases hb

lemma born_le (s s' : Shared κ N) (F : ℕ) : born s s' F ≤ 1 := by
  unfold born
  split <;> omega

lemma lt_nextFiber_of_born (h : born s s' F ≠ 0) : F < s'.nextFiber := by
  unfold born at h
  split at h <;> omega

lemma nextFiber_le_of_born (h : born s s' F ≠ 0) : s.nextFiber ≤ F := by
  unfold born at h
  split at h
  · exact And.left ‹_›
  · exact absurd rfl h

lemma Shared.fibers_spawn (s : Shared κ N) (g : κ) (thr : ℤ) :
    (s.spawn g thr).fibers s.nextFiber =
      { ctx := .entry (some (.user g)), ticket := some s.nextTicket } := Function.update_self _ _ _

lemma Shared.fibers_spawn_of_ne {F : ℕ} (hF : F ≠ s.nextFiber) (g : κ) (thr : ℤ) :
    (s.spawn g thr).fibers F = s.fibers F := Function.update_of_ne hF _ _

lemma resumable_spawn (g : κ) (thr : ℤ) : Resumable ((s.spawn g thr).fibers s.nextFiber) := by
  rw [Shared.fibers_spawn]
  exact ⟨.inl rfl, .inl ⟨g, rfl⟩⟩

theorem CodeStep.fibers {f : ℕ} {c c' : Code κ N} (h : CodeStep S s f c s' c') (F : ℕ) :
    s.nextFiber ≤ s'.nextFiber ∧ (born s s' F ≠ 0 → Resumable (s'.fibers F)) ∧
      (born s s' F = 0 → F ≠ f → s'.fibers F = s.fibers F) := by
  have hsame : s'.nextFiber = s.nextFiber → s'.fibers = s.fibers →
      s.nextFiber ≤ s'.nextFiber ∧ (born s s' F ≠ 0 → Resumable (s'.fibers F)) ∧
        (born s s' F = 0 → F ≠ f → s'.fibers F = s.fibers F) := fun hn hf =>
    ⟨hn.ge, fun hb => absurd (born_eq_zero hn) hb, fun _ _ => by rw [hf]⟩
  cases h with
  | spawn =>
      refine ⟨Nat.le_succ _, fun hb => ?_, fun hb _ => ?_⟩
      · rw [born_ne_zero rfl hb]
        exact resumable_spawn _ _
      · exact Function.update_of_ne (ne_of_born_eq_zero rfl hb) _ _
  | yieldState | finState =>
      exact ⟨le_rfl, fun hb => absurd (born_eq_zero rfl) hb, fun _ hF => Function.update_of_ne hF _ _⟩
  | event _ hs => exact hsame (event_frame hs).nextFiber (event_frame hs).fibers
  | evAdd => exact hsame addEvent_frame.nextFiber addEvent_frame.fibers
  | timerAdd hs =>
      have hf := congrArg (fun r => r.1.fibers) hs
      have hn := congrArg (fun r => r.1.nextFiber) hs
      exact hsame hn.symm hf.symm
  | _ => exact hsame rfl rfl

lemma ne_of_one {f : ℕ} (h : one F f = 0) : F ≠ f := by
  rintro rfl
  simp at h

/-- **A step writes only fibers that are with the worker**, or new ones. -/
theorem WorkerStep.fibers (h : WorkerStep S i s w s' w') (F : ℕ) :
    s.nextFiber ≤ s'.nextFiber ∧
      (born s s' F ≠ 0 → 0 < w'.pc.runs F ∨ Resumable (s'.fibers F)) ∧
      (born s s' F = 0 → w.pc.runs F = 0 → s'.fibers F = s.fibers F ∨ 0 < w'.pc.runs F) := by
  have hsame : s'.nextFiber = s.nextFiber → s'.fibers = s.fibers →
      s.nextFiber ≤ s'.nextFiber ∧
      (born s s' F ≠ 0 → 0 < w'.pc.runs F ∨ Resumable (s'.fibers F)) ∧
      (born s s' F = 0 → w.pc.runs F = 0 → s'.fibers F = s.fibers F ∨ 0 < w'.pc.runs F) :=
    fun hn hf => ⟨hn.ge, fun hb => absurd (born_eq_zero hn) hb, fun _ _ => .inl (by rw [hf])⟩
  cases h with
  | code hc =>
      obtain ⟨hn, hnew, hold⟩ := hc.fibers F
      exact ⟨hn, fun hb => .inr (hnew hb), fun hb hr => .inl (hold hb (ne_of_one hr))⟩
  | @dispatchReset d f T g thr =>
      refine ⟨le_rfl, fun hb => absurd (born_eq_zero rfl) hb, fun _ _ => ?_⟩
      by_cases hF : F = f
      · exact .inr (by simp [Pc.runs, hF])
      · exact .inl (Function.update_of_ne hF _ _)
  | dispatchNew =>
      refine ⟨Nat.le_succ _, fun hb => ?_, fun hb _ => ?_⟩
      · exact .inl (by simp [Pc.runs, born_ne_zero rfl hb])
      · exact .inl (Function.update_of_ne (ne_of_born_eq_zero rfl hb) _ _)
  | call | yieldSwap | finSwap | retire =>
      exact ⟨le_rfl, fun hb => absurd (born_eq_zero rfl) hb,
        fun _ hr => .inl (Function.update_of_ne (ne_of_one hr) _ _)⟩
  | eventsIo hs => exact hsame (event_frame hs).nextFiber (event_frame hs).fibers
  | _ => exact hsame rfl rfl

theorem WorkerStep.kept (h : WorkerStep S i s w s' w') (F : ℕ) :
    (w.funcFiber = some F → w'.funcFiber = some F ∨ 0 < w'.pc.runs F ∨
        s'.token F + w'.token F < s.token F + w.token F) ∧
      (w'.funcFiber = some F → w.funcFiber = some F ∨ s'.fibers F = {}) := by
  cases h with
  | @dispatchReset d f T g thr =>
      constructor
      · intro hf
        cases hf
        exact .inr (.inl (by simp [Pc.runs]))
      · intro hf
        cases hf
  | dispatchNew => exact ⟨fun hf => (by cases hf), fun hf => (by cases hf)⟩
  | @retire ff d f =>
      constructor
      · intro hf
        have hff : ff = some F := hf
        refine .inr (.inr ?_)
        simp only [Shared.token_setFiber, Worker.token_mk, Pc.token, hff, Option.map_some,
          Option.getD_some, one_self]
        omega
      · intro hf
        cases hf
        exact .inr (Function.update_self _ _ _)
  | _ => exact ⟨.inl, .inl⟩

theorem WorkerStep.released (h : WorkerStep S i s w s' w') (hl : Linked s.fibers w.pc)
    (hr : 0 < w.pc.runs F) (hr' : w'.pc.runs F = 0) :
    (s'.fibers F).state ≠ .running ∧
      (w'.funcFiber = some F ∨ Resumable (s'.fibers F) ∨
        s'.token F + w'.token F < s.token F + w.token F) := by
  -- only the tests behind `call` let go of the fiber
  have hF : ∀ {f : ℕ}, one F f ≠ 0 → f = F := eq_of_one
  cases h with
  | @checkFiber ff d f st hst =>
      obtain rfl := hF (f := f) (by simpa [Pc.runs] using hr.ne')
      rcases hl.2 with hdone | hres
      · have hrun : (s.fibers f).state ≠ .running := by
          rw [hl.1]
          rintro rfl
          cases hdone
        refine ⟨hrun, .inr (.inr ?_)⟩
        simp only [Worker.token_mk, Pc.token, if_neg (not_suspend_of_done hdone), one_self]
        omega
      · exact ⟨hres.not_running, .inr (.inl hres)⟩
  | @checkLeft ff d f st hst =>
      obtain rfl := hF (f := f) (by simpa [Pc.runs] using hr.ne')
      rcases hl.2.2 with hdone | hres
      · rw [← hl.1, hst] at hdone
        cases hdone
      · exact ⟨hres.not_running, .inr (.inl hres)⟩
  | @requeue ff d b f hlock =>
      obtain rfl := hF (f := f) (by simpa [Pc.runs] using hr.ne')
      have hres : Resumable (s.fibers f) := hl
      exact ⟨hres.not_running, .inr (.inl hres)⟩
  | @retire ff d f =>
      obtain rfl := hF (f := f) (by simpa [Pc.runs] using hr.ne')
      have hself : (s.setFiber f {}).fibers f = {} := Function.update_self _ _ _
      refine ⟨?_, .inl rfl⟩
      rw [hself]
      exact fun h => (by cases h)
  | poppedNone | poppedSome | expireWrite | dispatchFiber | dispatchReset | dispatchNew =>
      simp [Pc.runs] at hr
  | _ => exact absurd hr' hr.ne'

/-- The recurring timers hold functions of the program only. -/
def Quiet (m : TimerManager (Func κ N)) : Prop := m.All fun g r => r = true → ∀ F, g.wakes F = 0

lemma TimerUse.quiet (use : TimerUse κ N) (f : ℕ) :
    (use.func f).2 = true → ∀ F, (use.func f).1.wakes F = 0 := by
  cases use <;> simp [TimerUse.func, Func.wakes]

/-- How a step changes the timers. -/
inductive TimersStep (addr : ℕ → ℕ) (m : TimerManager (Func κ N)) : TimerManager (Func κ N) → Prop
  | same : TimersStep addr m m
  | add (f period deadline : ℕ) (use : TimerUse κ N) :
      TimersStep addr m (m.addTimer addr
        { period := period, next := deadline, func := (use.func f).1
          recurring := (use.func f).2 }).1
  | cancel (t : ℕ) : TimersStep addr m (m.cancel addr t)
  | expire (now : ℕ) : TimersStep addr m (m.getExpiredFuncs addr now).1

theorem WorkerStep.timers (h : WorkerStep S i s w s' w') : TimersStep S.addr s.timers s'.timers := by
  cases h with
  | @code ff d b f c c' s' hc =>
      cases hc with
      | @timerAdd period deadline t use s' changed hs =>
          have htimers := congrArg (fun r => r.1.timers) hs
          simp only [Shared.addTimer] at htimers
          rw [← htimers]
          exact .add f period deadline use
      | ioResumeSome => exact .cancel _
      | event _ hs => rw [(event_frame hs).timers]; exact .same
      | evAdd => rw [(addEvent_frame (s := s)).timers]; exact .same
      | _ => exact .same
  | @expireWrite ff d now evs m gs hexp =>
      have htimers := congrArg Prod.fst hexp
      dsimp only at htimers
      rw [← htimers]
      exact .expire now
  | eventsIo hs => rw [(event_frame hs).timers]; exact .same
  | _ => exact .same

lemma TimersStep.quiet {addr : ℕ → ℕ} {m m' : TimerManager (Func κ N)} (h : TimersStep addr m m')
    (hq : Quiet m) : Quiet m' := by
  cases h with
  | same => exact hq
  | add f period deadline use => exact TimerManager.all_addTimer hq (use.quiet f)
  | cancel t => exact TimerManager.all_cancel t hq
  | expire now => exact TimerManager.all_getExpiredFuncs addr now hq

theorem WorkerStep.quiet (h : WorkerStep S i s w s' w') (hq : Quiet s.timers) : Quiet s'.timers :=
  h.timers.quiet hq

/-! ### The link between a worker and its fiber -/

lemma Linked.congr {fibers fibers' : ℕ → Fiber κ N} {pc : Pc κ N} (h : Linked fibers pc)
    (hf : ∀ F, 0 < pc.runs F → fibers' F = fibers F) : Linked fibers' pc := by
  cases pc with
  | call b f | swapIn b f =>
      have hself := hf f (by simp [Pc.runs])
      cases b <;> simp only [Linked, hself] <;> exact h
  | exec _ f _ | back _ f _ | check _ f _ | checkDone f _ | requeue _ f | retire f =>
      have hself := hf f (by simp [Pc.runs])
      simp only [Linked, hself]
      exact h
  | _ => trivial

lemma Cont.proper (c : Cont κ N) : c.code.state = .running ∧ c.code.Proper := by
  cases c with
  | run | register => exact ⟨rfl, trivial⟩
  | suspend => exact ⟨rfl, .inr rfl⟩

lemma Ctx.proper (c : Ctx κ N) (h : c ≠ .dead) : c.code.state = .running ∧ c.code.Proper := by
  cases c with
  | entry g =>
      cases g with
      | none => exact ⟨rfl, rfl⟩
      | some g => cases g <;> exact ⟨rfl, trivial⟩
  | «at» r => cases r <;> exact ⟨rfl, trivial⟩
  | dead => exact absurd rfl h

lemma Code.eventOp_proper {c c' : Code κ N} {o : IOManager.Op N ℕ κ}
    (h : c.eventOp S = some (o, c')) : c.state = .running ∧ c'.state = .running ∧ c'.Proper := by
  unfold eventOp at h
  split at h
  · cases h
    exact ⟨rfl, rfl, rfl⟩
  · split at h <;> cases h <;> exact ⟨rfl, rfl, trivial⟩
  · cases h

theorem CodeStep.linked {f : ℕ} {c c' : Code κ N} (h : CodeStep S s f c s' c')
    (hlt : f < s.nextFiber) (hl : (s.fibers f).state = c.state ∧ c.Proper) :
    (s'.fibers f).state = c'.state ∧ c'.Proper := by
  cases h with
  | finish hp =>
      refine ⟨hl.1, ?_⟩
      rcases hp with ⟨-, rfl⟩ | ⟨-, rfl⟩ <;> rfl
  | @spawn k g thr next =>
      have hf : (s.spawn g thr).fibers f = s.fibers f := Function.update_of_ne hlt.ne _ _
      exact ⟨(congrArg Fiber.state hf).trans hl.1, trivial⟩
  | yieldReady => exact ⟨hl.1, .inl rfl⟩
  | event hop hs =>
      obtain ⟨hc, hc', hp'⟩ := Code.eventOp_proper hop
      refine ⟨?_, hp'⟩
      rw [(event_frame hs).fibers, hl.1, hc, hc']
  | @timerAdd period deadline t use s' changed hs =>
      have hf := congrArg (fun r => r.1.fibers f) hs
      have hst : (s'.fibers f).state = .running := (congrArg Fiber.state hf).symm.trans hl.1
      obtain ⟨hc, hp⟩ := (use.cont t).proper
      cases changed with
      | false => exact ⟨hst.trans hc.symm, hp⟩
      | true => exact ⟨hst, trivial⟩
  | @tickleSkip cont hi =>
      obtain ⟨hc, hp⟩ := cont.proper
      exact ⟨hl.1.trans hc.symm, hp⟩
  | @tickleWrite cont =>
      obtain ⟨hc, hp⟩ := cont.proper
      exact ⟨hl.1.trans hc.symm, hp⟩
  | yieldState =>
      refine ⟨?_, hl.2⟩
      simp [Shared.leave, Shared.setFiber, Code.state]
  | finState =>
      refine ⟨?_, hl.2⟩
      simp [Shared.finish, Shared.setFiber, Code.state]
  | dead => exact hl.2.elim
  | wake => exact ⟨hl.1, rfl⟩
  | timeoutSkip => exact ⟨hl.1, rfl⟩
  | ioEnd hc =>
      refine ⟨?_, trivial⟩
      rcases hc with rfl | rfl <;> exact hl.1
  | @evAdd a =>
      rw [(addEvent_frame (s := s)).fibers]
      cases a with
      | call => exact ⟨hl.1, trivial⟩
      | wait => exact ⟨hl.1, .inr rfl⟩
  | _ => exact ⟨hl.1, trivial⟩

theorem WorkerStep.linked (h : WorkerStep S i s w s' w') (hl : Linked s.fibers w.pc)
    (hlt : ∀ F, 0 < w.pc.runs F → F < s.nextFiber)
    (hhand : ∀ F, 0 < w.pc.hand F → Resumable (s.fibers F)) : Linked s'.fibers w'.pc := by
  cases h with
  | @poppedNone ff d need => cases need <;> trivial
  | @poppedSome ff d need tk => cases need <;> trivial
  | dispatchFiber => exact hhand _ (by simp [Pc.hand, jobHolds, Work.holds])
  | dispatchReset | dispatchNew => exact Function.update_self _ _ _
  | @call ff d b f hst =>
      cases b with
      | fiber =>
          refine ⟨by simp [Shared.setFiber], ?_⟩
          simpa [Shared.setFiber] using hl.ctx
      | func g T =>
          have hfb : s.fibers f = { ctx := .entry (some g), ticket := some T } := hl
          simp [Linked, Shared.setFiber, hfb]
  | @callFails ff d b f =>
      cases b <;> exact hl
  | @swapIn ff d b f =>
      have hst : (s.fibers f).state = .running ∧ (s.fibers f).ctx ≠ .dead := by
        cases b with
        | fiber => exact ⟨hl.1, hl.2.ne_dead⟩
        | func g T =>
            have hfb : s.fibers f = { state := .running, ctx := .entry (some g), ticket := some T } := hl
            rw [hfb]
            exact ⟨rfl, nofun⟩
      obtain ⟨hc, hp⟩ := (s.fibers f).ctx.proper hst.2
      exact ⟨hst.1.trans hc.symm, hp⟩
  | code hc => exact hc.linked (hlt _ (by simp [Pc.runs])) hl
  | @yieldSwap ff d b f st r =>
      refine ⟨by simpa [Shared.setFiber, Code.state] using hl.1, .inr ⟨?_, .inr ⟨r, ?_⟩⟩⟩
      · have hst : (s.fibers f).state = st := hl.1
        simpa [Shared.setFiber, hst] using (show st = .ready ∨ st = .suspend from hl.2)
      · simp [Shared.setFiber]
  | finSwap => exact ⟨by simpa [Shared.setFiber, Code.state] using hl.1, .inl hl.2⟩
  | back => exact hl
  | checkFunc hst => exact ⟨hl.1, hl.1 ▸ hst, hl.2⟩
  | @checkReady ff d b f st hst =>
      rcases hl.2 with hdone | hres
      · rw [← hl.1, hst] at hdone
        cases hdone
      · exact hres
  | checkDone hdone => exact hdone
  | expireWrite =>
      rename_i gs _
      cases gs <;> trivial
  | _ => trivial

/-! ### Failed assertions -/

/-- Where an assertion can fail: at a task whose fiber runs, at a call of a fiber that runs or has
ended, behind the last yield, and in the sections on events. -/
def Fails (s : Shared κ N) (pc : Pc κ N) : Site → Prop
  | .run => ∃ tk ∈ s.tasks, s.selectable tk.work = false
  | .call => ∃ b f, pc = .call b f ∧ ((s.fibers f).state = .running ∨ (s.fibers f).state = .term)
  | .dead => ∃ b f, pc = .exec b f .dead
  | .event _ => True

lemma event_crashed {o : IOManager.Op N ℕ κ} (h : s.event o = some s') :
    s'.crashed = s.crashed ∨ ∃ a, s'.crashed = some (.event a) := by
  rcases s.event_cases h with ⟨a, -, rfl⟩ | ⟨out, -, -, rfl⟩
  · exact .inr ⟨a, rfl⟩
  · unfold Shared.deliver
    split <;> exact .inl rfl

lemma addEvent_crashed {f : ℕ} {a : Adding κ N} :
    (s.addEvent f a).crashed = s.crashed ∨ ∃ x, (s.addEvent f a).crashed = some (.event x) := by
  unfold Shared.addEvent
  split
  · rename_i x _
    exact .inr ⟨x, rfl⟩
  · exact .inl rfl

theorem WorkerStep.crashed (h : WorkerStep S i s w s' w') {site : Site} (hs : s.crashed = none)
    (hs' : s'.crashed = some site) : Fails s w.pc site := by
  have hevent : (s'.crashed = s.crashed ∨ ∃ a, s'.crashed = some (.event a)) →
      Fails s w.pc site := by
    rintro (he | ⟨a, ha⟩)
    · rw [he, hs] at hs'
      cases hs'
    · rw [ha] at hs'
      cases hs'
      trivial
  cases h with
  | selectFails hmem hno =>
      cases hs'
      exact ⟨_, hmem, hno⟩
  | callFails hst =>
      cases hs'
      exact ⟨_, _, rfl, hst⟩
  | code hc =>
      cases hc with
      | event _ he => exact hevent (event_crashed he)
      | evAdd => exact hevent addEvent_crashed
      | evTestFails => exact hevent (.inr ⟨_, rfl⟩)
      | dead =>
          cases hs'
          exact ⟨_, _, rfl⟩
      | timerAdd ht =>
          have hsame := congrArg (fun r => r.1.crashed) ht
          exact hevent (.inl hsame.symm)
      | _ => exact hevent (.inl rfl)
  | eventsIo he => exact hevent (event_crashed he)
  | _ => exact hevent (.inl rfl)

end Steps

/-! ### One worker of many -/

namespace Sys

variable {x : Sys κ n N}

lemma put_workers_self (i : Fin n) (s : Shared κ N) (w : Worker κ N) :
    (x.put i s w).workers i = w := Function.update_self _ _ _

lemma put_workers_of_ne {i j : Fin n} (h : j ≠ i) (s : Shared κ N) (w : Worker κ N) :
    (x.put i s w).workers j = x.workers j := Function.update_of_ne h _ _

lemma sum_put (x : Sys κ n N) (i : Fin n) (s : Shared κ N) (w : Worker κ N) (v : Worker κ N → ℕ) :
    ∑ j, v ((x.put i s w).workers j) + v (x.workers i) = ∑ j, v (x.workers j) + v w := by
  have h := sum_changed (fun j => v (x.workers j)) (fun j => v ((x.put i s w).workers j)) i
    fun j hj => by rw [put_workers_of_ne hj]
  rwa [put_workers_self] at h

lemma sum_lt (S : Setup κ n N) (x : Sys κ n N) {v : Worker κ N → ℕ} (hv : ∀ w, v w ≤ 1) :
    ∑ i, v (x.workers i) < 2 ^ 31 := by
  have h := Finset.sum_le_card_nsmul Finset.univ (fun i => v (x.workers i)) 1 fun i _ => hv _
  have hn : ∑ i, v (x.workers i) ≤ n := by simpa using h
  exact hn.trans_lt S.small

end Sys

end Eva01.Runtime
