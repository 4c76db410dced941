import Eva01.Runtime.Refines

/-!
The calls of `do_io` and `connect_with_timeout`, and the callbacks of their timeout timers.

A call has a `timer_info`, whose number names the call. Everything in the machine that belongs to a
call agrees on the fiber that makes it, on the descriptor and on the event (`Calls`): the point of
the code the fiber is at, the context it has saved, the timers, and the callbacks on their way from
a timer to their end. So a callback cancels the event that its own fiber waits for, and a fiber
cancels no timer but its own.
-/

namespace Eva01.Runtime

open Eva01.IOManager (Event Target)
open Eva01.Lib.Runs

variable {κ : Type*} {n N : ℕ}

/-! ### Where a call is -/

/-- The timeout callback of a call. -/
def Io.callback (r : Io κ N) : Func κ N := .timeout r.info r.fd r.event

/-- The call a fiber is in, with the timer of its wait. -/
def Resume.call : Resume κ N → Option (Io κ N × Option ℕ)
  | .user _ => none
  | .io r t => some (r, t)

def Ctx.call : Ctx κ N → Option (Io κ N × Option ℕ)
  | .at r => r.call
  | _ => none

def Cont.call : Cont κ N → Option (Io κ N × Option ℕ)
  | .run _ => none
  | .suspend r => r.call
  | .register r t => some (r, t)

def Code.call : Code κ N → Option (Io κ N × Option ℕ)
  | .timerAdd _ _ (.io r) | .ioCall r | .ioArm r | .ioCheck r => some (r, none)
  | .tickleRead c | .tickleWrite c => c.call
  | .yieldState _ r | .yieldSwap _ r => r.call
  | .evTest (.wait r t) | .evAdd (.wait r t) | .ioResume r t => some (r, t)
  | _ => none

def Cont.registers : Cont κ N → Bool
  | .register _ _ => true
  | _ => false

/-- The fiber is in a call and has not registered for the event yet. -/
def Code.registers : Code κ N → Bool
  | .timerAdd _ _ (.io _) | .ioCall _ | .ioArm _ | .evTest (.wait _ _) | .evAdd (.wait _ _) => true
  | .tickleRead c | .tickleWrite c => c.registers
  | _ => false

def Cont.leaves : Cont κ N → Bool
  | .suspend _ => true
  | _ => false

/-- The fiber is on its way to the swap. -/
def Code.leaves : Code κ N → Bool
  | .yieldState _ _ | .yieldSwap _ _ => true
  | .tickleRead c | .tickleWrite c => c.leaves
  | _ => false

lemma Ctx.call_code (c : Ctx κ N) :
    c.code.call = c.call ∧ c.code.registers = false ∧ c.code.leaves = false := by
  cases c with
  | entry g =>
      cases g with
      | none => exact ⟨rfl, rfl, rfl⟩
      | some g => cases g <;> exact ⟨rfl, rfl, rfl⟩
  | «at» r => cases r <;> exact ⟨rfl, rfl, rfl⟩
  | dead => exact ⟨rfl, rfl, rfl⟩

lemma Cont.call_code (c : Cont κ N) :
    c.code.call = c.call ∧ c.code.registers = c.registers ∧ c.code.leaves = c.leaves := by
  cases c <;> exact ⟨rfl, rfl, rfl⟩

/-! ### Steps of a call -/

/-- Nothing that belongs to calls is touched. -/
structure Still (s s' : Shared κ N) : Prop where
  tasks : s'.tasks = s.tasks
  timers : s'.timers = s.timers
  fds : s'.fds = s.fds
  infos : s'.infos = s.infos
  nextInfo : s'.nextInfo = s.nextInfo

/-- A step of the fiber `f` to a point of the call `r` with the timer `t`. -/
inductive CallStep (S : Setup κ n N) (s : Shared κ N) (f : ℕ) :
    Code κ N → Shared κ N → Code κ N → Io κ N → Option ℕ → Prop
  | start {k : κ} {r : Io κ N} :
      r.info = s.nextInfo →
      CallStep S s f (.user k)
        { s with nextInfo := s.nextInfo + 1
                 infos := Function.update s.infos s.nextInfo { alive := true } }
        (.ioCall r) r none
  | stay {c c' : Code κ N} {s' : Shared κ N} {r : Io κ N} {t : Option ℕ} :
      c.call = some (r, t) → c'.registers = c.registers → c'.leaves = c.leaves → Still s s' →
      CallStep S s f c s' c' r t
  | arm {period deadline t : ℕ} {c' : Code κ N} {s' : Shared κ N} {r : Io κ N} {changed : Bool} :
      s.addTimer S.addr f period deadline (.io r) = (s', t, changed) → c'.leaves = false →
      CallStep S s f (.timerAdd period deadline (.io r)) s' c' r (some t)
  | register {r : Io κ N} {t : Option ℕ} :
      CallStep S s f (.evAdd (.wait r t)) (s.addEvent f (.wait r t))
        (.yieldState .suspend (.io r t)) r t
  | resume {r : Io κ N} {t : Option ℕ} {s' : Shared κ N} :
      s'.infos = s.infos → CallStep S s f (.ioResume r t) s' (.ioCheck r) r none
  | retry {r : Io κ N} :
      (s.infos r.info).cancelled = false → CallStep S s f (.ioCheck r) s (.ioCall r) r none

section Inversion

variable {S : Setup κ n N} {i : Fin n} {s s' : Shared κ N} {w w' : Worker κ N} {f : ℕ}
  {c c' : Code κ N} {r : Io κ N} {t : Option ℕ}

lemma Code.call_eventOp {o : IOManager.Op N ℕ κ} (h : c.eventOp S = some (o, c')) :
    c.call = none ∧ c'.call = none := by
  unfold eventOp at h
  split at h
  · cases h
    exact ⟨rfl, rfl⟩
  · split at h <;> cases h <;> exact ⟨rfl, rfl⟩
  · cases h

theorem CodeStep.call_inv (h : CodeStep S s f c s' c') (hc : c'.call = some (r, t)) :
    CallStep S s f c s' c' r t := by
  cases h with
  | io hp =>
      cases hc
      exact .start rfl
  | @timerAdd period deadline t₀ use _ changed hs =>
      cases use with
      | call g recurring next => cases changed <;> cases hc
      | sleep next => cases changed <;> cases hc
      | io r₀ =>
          cases changed <;> cases hc <;> exact .arm hs rfl
  | @tickleSkip cont hi =>
      obtain ⟨hcall, hreg, hleave⟩ := cont.call_code
      exact .stay (hcall.symm.trans hc) hreg hleave ⟨rfl, rfl, rfl, rfl, rfl⟩
  | tickleRead => exact .stay hc rfl rfl ⟨rfl, rfl, rfl, rfl, rfl⟩
  | @tickleWrite cont =>
      obtain ⟨hcall, hreg, hleave⟩ := cont.call_code
      exact .stay (hcall.symm.trans hc) hreg hleave ⟨rfl, rfl, rfl, rfl, rfl⟩
  | yieldState => exact .stay hc rfl rfl ⟨rfl, rfl, rfl, rfl, rfl⟩
  | ioEintr | ioBlock | ioArmNone | ioArmSome =>
      cases hc
      exact .stay rfl rfl rfl ⟨rfl, rfl, rfl, rfl, rfl⟩
  | @evTest a | @evTestFails a =>
      cases a with
      | call => cases hc
      | wait => exact .stay hc rfl rfl ⟨rfl, rfl, rfl, rfl, rfl⟩
  | @evAdd a =>
      cases a with
      | call => cases hc
      | wait =>
          cases hc
          exact .register
  | ioResumeNone | ioResumeSome =>
      cases hc
      exact .resume rfl
  | ioRetry hcan =>
      cases hc
      exact .retry hcan
  | event hop => exact absurd hc (by simp [(Code.call_eventOp hop).2])
  | makeTimer hp =>
      rcases hp with ⟨g, recurring, next, -, rfl⟩ | ⟨next, -, rfl⟩ <;> cases hc
  | _ => cases hc

/-- A worker comes to a point of a fiber's code by a swap, or by a step of the fiber. -/
lemma WorkerStep.exec_inv {b : Branch κ N} (h : WorkerStep S i s w s' w')
    (hw : w'.pc = .exec b f c') :
    (w.pc = .swapIn b f ∧ c' = (s.fibers f).ctx.code ∧ Still s s') ∨
      ∃ c, w.pc = .exec b f c ∧ CodeStep S s f c s' c' := by
  cases h with
  | @poppedNone ff d need => cases need <;> cases hw
  | @poppedSome ff d need => cases need <;> cases hw
  | @expireWrite ff d now evs m gs => cases gs <;> cases hw
  | swapIn =>
      cases hw
      exact .inl ⟨rfl, rfl, rfl, rfl, rfl, rfl, rfl⟩
  | code hc =>
      cases hw
      exact .inr ⟨_, rfl, hc⟩
  | _ => cases hw

/-- A context is saved by a yield only. -/
lemma WorkerStep.ctx_inv (h : WorkerStep S i s w s' w') {F : ℕ}
    (hc : (s'.fibers F).ctx.call = some (r, t)) :
    ((s.fibers F).ctx = (s'.fibers F).ctx ∧
      (w.pc.executing = some F → w'.pc.executing = some F)) ∨
      ∃ b st res, w.pc = .exec b F (.yieldSwap st res) ∧ (s'.fibers F).ctx = .at res ∧ Still s s' := by
  have hset : ∀ {f : ℕ} {fb : Fiber κ N} {g : ℕ → Fiber κ N}, g = Function.update s.fibers f fb →
      (g F).ctx.call = some (r, t) → fb.ctx = (s.fibers f).ctx ∨ fb.ctx.call = none →
      (s.fibers F).ctx = (g F).ctx := by
    rintro f fb g rfl hg hfb
    by_cases hF : F = f
    · subst hF
      rw [Function.update_self] at hg ⊢
      rcases hfb with hfb | hfb
      · exact hfb.symm
      · rw [hfb] at hg
        cases hg
    · rw [Function.update_of_ne hF]
  -- a worker that executes no code
  have hnone : ∀ {P : Prop}, none = some F → P := fun h => absurd h.symm (Option.some_ne_none F)
  cases h with
  | dispatchReset | dispatchNew | retire => exact .inl ⟨hset rfl hc (.inr rfl), hnone⟩
  | call => exact .inl ⟨hset rfl hc (.inl rfl), hnone⟩
  | @finSwap ff d b f st =>
      have hF : F ≠ f := by
        rintro rfl
        simp [Shared.setFiber, Ctx.call] at hc
      exact .inl ⟨hset rfl hc (.inr rfl), fun hex => absurd (Option.some.inj hex).symm hF⟩
  | @yieldSwap ff d b f st res =>
      by_cases hF : F = f
      · subst hF
        refine .inr ⟨b, st, res, rfl, ?_, rfl, rfl, rfl, rfl, rfl⟩
        simp [Shared.setFiber]
      · exact .inl ⟨by simp [Shared.setFiber, Function.update_of_ne hF],
          fun hex => absurd (Option.some.inj hex).symm hF⟩
  | code hcode =>
      refine .inl ⟨?_, fun hex => hex⟩
      cases hcode with
      | spawn => exact hset rfl hc (.inr rfl)
      | yieldState | finState => exact hset rfl hc (.inl rfl)
      | event _ hs => rw [(event_frame hs).fibers]
      | evAdd => rw [addEvent_frame.fibers]
      | timerAdd hs => exact congrArg (fun y => (y.1.fibers F).ctx) hs
      | _ => rfl
  | eventsIo hs => exact .inl ⟨by rw [(event_frame hs).fibers], hnone⟩
  | _ => exact .inl ⟨rfl, hnone⟩

end Inversion

/-! ### Callbacks on their way -/

def Work.callee : Work κ N → Option (Func κ N)
  | .fiber _ => none
  | .func g _ => some g

/-- The functions in the task list. -/
def Shared.callees (s : Shared κ N) : List (Func κ N) := s.tasks.filterMap fun tk => tk.work.callee

/-- The functions a worker has and has not begun; of the callbacks, those before the test of their
`timer_info`. -/
def Pc.callees : Pc κ N → List (Func κ N)
  | .popped (some tk) _ | .tickleRead (some tk) | .tickleWrite (some tk) | .dispatch (some tk) =>
      tk.work.callee.toList
  | .call (.func g _) _ | .swapIn (.func g _) _ => [g]
  | .exec _ _ (.timeout k fd e) => [.timeout k fd e]
  | .expireSched gs _ => gs
  | _ => []

/-- The callback that a worker is about to end by `cancelEvent`. -/
def Pc.fires : Pc κ N → Option (Func κ N)
  | .exec _ _ (.timeoutFire k fd e) => some (.timeout k fd e)
  | _ => none

/-- The call whose callback a worker is about to begin by the test of the `timer_info`. -/
def Pc.tests : Pc κ N → Option ℕ
  | .exec _ _ (.timeout k _ _) => some k
  | _ => none

section Callbacks

variable {S : Setup κ n N} {i : Fin n} {s s' : Shared κ N} {w w' : Worker κ N} {f k : ℕ}
  {c c' : Code κ N} {fd : Fin N} {e : Event}

/-- The function of a target. -/
def targetCallee : Target ℕ (Func κ N) → Option (Func κ N)
  | .fiber _ => none
  | .func g => some g

lemma issue_callees (T : ℕ) (ws : List (Target ℕ (Func κ N))) :
    (issue T ws).filterMap Work.callee = ws.filterMap targetCallee := by
  induction ws generalizing T with
  | nil => rfl
  | cons x xs ih =>
      cases x <;> simp [issue, List.filterMap_cons, Work.callee, targetCallee, ih]

lemma Shared.callees_schedule (ws : List (Target ℕ (Func κ N))) (thr : ℤ) :
    (s.schedule ws thr).callees = s.callees ++ ws.filterMap targetCallee := by
  rw [← issue_callees s.nextTicket]
  simp [callees, tasks_schedule, List.filterMap_map]

lemma Shared.callees_subset {l : List (Job κ N)} (h : s'.tasks = s.tasks ++ l) :
    s.callees ⊆ s'.callees := by
  simp only [callees, h, List.filterMap_append]
  exact List.subset_append_left _ _

lemma Shared.callees_congr (h : s'.tasks = s.tasks) : s'.callees = s.callees := by
  unfold callees
  rw [h]

lemma not_timeout_of_user (gs : List κ) :
    Func.timeout k fd e ∉ (gs.map fun g => (.func (.user g) : Target ℕ (Func κ N))).filterMap
      targetCallee := by
  induction gs with
  | nil => exact List.not_mem_nil
  | cons g gs ih => simp [targetCallee]

lemma mem_callees_took {tk : Job κ N} {rest : List (Job κ N)} {g : Func κ N}
    (h : S.sel s.selectable i s.tasks = .took tk rest) :
    g ∈ s.callees ↔ g ∈ Shared.callees { s with tasks := rest } ∨ g ∈ tk.work.callee.toList := by
  obtain ⟨-, -, pre, post, htasks, rfl⟩ := S.selects.took h
  simp only [Shared.callees, List.mem_filterMap, htasks, Option.mem_toList, List.mem_append,
    List.mem_cons]
  constructor
  · rintro ⟨tk', hpre | rfl | hpost, hg⟩
    · exact .inl ⟨tk', .inl hpre, hg⟩
    · exact .inr hg
    · exact .inl ⟨tk', .inr hpost, hg⟩
  · rintro (⟨tk', hpre | hpost, hg⟩ | hg)
    · exact ⟨tk', .inl hpre, hg⟩
    · exact ⟨tk', .inr (.inr hpost), hg⟩
    · exact ⟨tk, .inr (.inl rfl), hg⟩

lemma event_callees {o : IOManager.Op N ℕ κ} (h : s.event o = some s')
    (hg : Func.timeout k fd e ∈ s'.callees) : Func.timeout k fd e ∈ s.callees := by
  rcases s.event_cases h with ⟨a, -, rfl⟩ | ⟨out, -, -, rfl⟩
  · exact hg
  · unfold Shared.deliver at hg
    split at hg
    · exact hg
    · rw [Shared.callees_schedule] at hg
      refine (List.mem_append.1 hg).resolve_right fun hmem => ?_
      obtain ⟨x, hx, hxg⟩ := List.mem_filterMap.1 hmem
      obtain ⟨y, -, rfl⟩ := List.mem_map.1 hx
      cases y <;> cases hxg

/-- **A callback stays on its way until it is run**, and then it acts unless its call has ended or
has been timed out already. -/
theorem WorkerStep.callback (h : WorkerStep S i s w s' w') (hl : Linked s.fibers w.pc)
    (hg : Func.timeout k fd e ∈ s.callees ∨ Func.timeout k fd e ∈ w.pc.callees) :
    (Func.timeout k fd e ∈ s'.callees ∨ Func.timeout k fd e ∈ w'.pc.callees) ∨
      (w.pc.tests = some k ∧ w'.pc.fires = some (.timeout k fd e)) ∨
        (s.infos k).alive = false ∨ (s.infos k).cancelled = true := by
  have hnil : ∀ {l : List (Job κ N)}, s'.tasks = s.tasks ++ l → w.pc.callees = [] →
      Func.timeout k fd e ∈ s'.callees := fun hl hw =>
    Shared.callees_subset hl (hg.resolve_right (by simp [hw]))
  cases h with
  | selectTook hsel => exact .inl ((mem_callees_took hsel).1 (hg.resolve_right List.not_mem_nil))
  | @poppedNone ff d need => cases need <;> exact .inl hg
  | @poppedSome ff d need tk => cases need <;> exact .inl hg
  | @tickleSkip ff d tk | @tickleRead ff d tk | @tickleWrite ff d tk => cases tk <;> exact .inl hg
  | @call ff d b f hst => cases b <;> exact .inl hg
  | @swapIn ff d b f =>
      left
      cases b with
      | fiber => exact .inl (hg.resolve_right List.not_mem_nil)
      | func g T =>
          have hfb : s.fibers f = { state := .running, ctx := .entry (some g), ticket := some T } := hl
          refine hg.imp_right fun hmem => ?_
          obtain rfl := List.mem_singleton.1 hmem
          rw [hfb]
          exact List.mem_singleton_self _
  | @code ff d b f c c' s' hc =>
      obtain ⟨l, htasks⟩ := hc.tasks
      rcases hg with hmem | hmem
      · exact .inl (.inl (Shared.callees_subset htasks hmem))
      · cases hc with
        | timeoutAct =>
            have heq := List.mem_singleton.1 hmem
            cases heq
            exact .inr (.inl ⟨rfl, rfl⟩)
        | timeoutSkip hskip =>
            have heq := List.mem_singleton.1 hmem
            cases heq
            exact .inr (.inr hskip)
        | @event c _ _ _ hop => cases c <;> simp_all [Code.eventOp, Pc.callees]
        | ioEnd hio => rcases hio with rfl | rfl <;> cases hmem
        | _ => cases hmem
  | requeue => exact .inl (.inl (hnil rfl rfl))
  | @expireWrite ff d now evs m gs hexp => exact .inl (.inl (hg.resolve_right List.not_mem_nil))
  | @expireSched ff d gs evs hlock =>
      left
      left
      rw [Shared.callees_schedule]
      refine List.mem_append.2 (hg.imp_right fun hmem => ?_)
      exact List.mem_filterMap.2 ⟨.func _, List.mem_map_of_mem hmem, rfl⟩
  | eventsIo hs =>
      obtain ⟨l, htasks⟩ := event_tasks hs
      exact .inl (.inl (hnil htasks rfl))
  | drain => exact .inl (.inl (hnil (List.append_nil _).symm rfl))
  | _ => exact .inl hg

lemma CodeStep.callees_origin (h : CodeStep S s f c s' c') (hg : Func.timeout k fd e ∈ s'.callees) :
    Func.timeout k fd e ∈ s.callees := by
  have hnew : ∀ {gs : List (Func κ N)}, s'.callees = s.callees ++ gs → Func.timeout k fd e ∉ gs →
      Func.timeout k fd e ∈ s.callees := fun hs hgs =>
    (List.mem_append.1 (hs ▸ hg)).resolve_right hgs
  cases h with
  | schedule => exact hnew (Shared.callees_schedule _ _) (not_timeout_of_user _)
  | spawn => exact hnew (Shared.callees_schedule (s := s.newFiber _ _) _ _) List.not_mem_nil
  | wake => exact hnew (Shared.callees_schedule _ _) List.not_mem_nil
  | event _ hs => exact event_callees hs hg
  | timerAdd hs =>
      have htasks := congrArg (fun y => y.1.tasks) hs
      rwa [Shared.callees_congr htasks.symm] at hg
  | evAdd =>
      unfold Shared.addEvent at hg
      split at hg <;> exact hg
  | _ => exact hg

lemma Cont.callees_code (cont : Cont κ N) (b : Branch κ N) :
    (Pc.exec b f cont.code).callees = [] ∧ (Pc.exec b f cont.code).fires = none := by
  cases cont <;> exact ⟨rfl, rfl⟩

lemma CodeStep.exec_callees (h : CodeStep S s f c s' c') (b : Branch κ N) {g : Func κ N}
    (hg : g ∈ (Pc.exec b f c').callees ∨ (Pc.exec b f c').fires = some g) :
    g ∈ (Pc.exec b f c).callees := by
  have hnone : (Pc.exec b f c').callees = [] ∧ (Pc.exec b f c').fires = none →
      g ∈ (Pc.exec b f c).callees := by
    rintro ⟨hc, hf⟩
    rw [hc, hf] at hg
    rcases hg with hg | hg <;> cases hg
  cases h with
  | timeoutAct => exact hg.elim (fun hg => (by cases hg)) fun hg => (by cases hg; exact .head _)
  | @timerAdd period deadline t use _ changed hs =>
      cases changed with
      | false => exact hnone ((use.cont t).callees_code b)
      | true => exact hnone ⟨rfl, rfl⟩
  | @tickleSkip cont hi => exact hnone (cont.callees_code b)
  | @tickleWrite cont => exact hnone (cont.callees_code b)
  | @evAdd a => cases a <;> exact hnone ⟨rfl, rfl⟩
  | event hop =>
      unfold Code.eventOp at hop
      split at hop
      · cases hop
        exact hnone ⟨rfl, rfl⟩
      · split at hop <;> cases hop <;> exact hnone ⟨rfl, rfl⟩
      · cases hop
  | _ => exact hnone ⟨rfl, rfl⟩

lemma not_callee {g : Func κ N} : ¬(g ∈ ([] : List (Func κ N)) ∨ none = some g) := by simp

theorem WorkerStep.callback_origin (h : WorkerStep S i s w s' w') (hl : Linked s.fibers w.pc)
    (hg : Func.timeout k fd e ∈ s'.callees ∨ Func.timeout k fd e ∈ w'.pc.callees ∨
      w'.pc.fires = some (.timeout k fd e)) :
    (Func.timeout k fd e ∈ s.callees ∨ Func.timeout k fd e ∈ w.pc.callees ∨
      w.pc.fires = some (.timeout k fd e)) ∨
        ∃ t, (s.timers.obj t).map Timer.func = some (.timeout k fd e) := by
  cases h with
  | selectTook hsel =>
      refine .inl (.inl ((mem_callees_took hsel).2 (hg.imp_right fun hw => ?_)))
      exact hw.resolve_right (Option.some_ne_none _).symm
  | @poppedNone ff d need => cases need <;> exact .inl hg
  | @poppedSome ff d need tk => cases need <;> exact .inl hg
  | @tickleSkip ff d tk | @tickleRead ff d tk | @tickleWrite ff d tk => cases tk <;> exact .inl hg
  | @call ff d b f hst => cases b <;> exact .inl hg
  | @swapIn ff d b f =>
      left
      cases b with
      | fiber =>
          left
          rcases hl.2 with ⟨k', hk'⟩ | ⟨r, hr⟩
          · rw [hk'] at hg
            exact hg.resolve_right (by simp [Ctx.code, Pc.callees, Pc.fires])
          · rw [hr] at hg
            cases r <;> exact hg.resolve_right (by simp [Ctx.code, Pc.callees, Pc.fires])
      | func g T =>
          have hfb : s.fibers f = { state := .running, ctx := .entry (some g), ticket := some T } := hl
          rw [hfb] at hg
          cases g with
          | user k' => exact .inl (hg.resolve_right (by simp [Ctx.code, Pc.callees, Pc.fires]))
          | wake f' => exact .inl (hg.resolve_right (by simp [Ctx.code, Pc.callees, Pc.fires]))
          | timeout => exact hg
  | @code ff d b f c c' s' hc =>
      left
      rcases hg with hmem | hmem
      · exact .inl (hc.callees_origin hmem)
      · exact .inr (.inl (hc.exec_callees b hmem))
  | requeue =>
      rw [Shared.callees_schedule] at hg
      have hmem := hg.resolve_right not_callee
      refine .inl (.inl ?_)
      exact (List.mem_append.1 hmem).resolve_right List.not_mem_nil
  | @expireWrite ff d now evs m gs hexp =>
      rcases hg with hmem | hmem
      · exact .inl (.inl hmem)
      · refine .inr (TimerManager.func_of_mem_getExpiredFuncs S.addr now ?_)
        rw [hexp]
        cases gs with
        | nil => rcases hmem with hmem | hmem <;> cases hmem
        | cons g gs => exact hmem.resolve_right (Option.some_ne_none _).symm
  | @expireSched ff d gs evs hlock =>
      rw [Shared.callees_schedule] at hg
      have hmem := hg.resolve_right not_callee
      refine .inl ((List.mem_append.1 hmem).imp_right fun hgs => .inl ?_)
      obtain ⟨y, hy, hyg⟩ := List.mem_filterMap.1 hgs
      obtain ⟨g, hgmem, rfl⟩ := List.mem_map.1 hy
      cases hyg
      exact hgmem
  | eventsIo hs => exact .inl (.inl (event_callees hs (hg.resolve_right not_callee)))
  | drain =>
      have hs : Shared.callees { s with pipe := s.pipe - 256 } = s.callees :=
        Shared.callees_congr rfl
      rw [hs] at hg
      exact .inl hg
  | _ => exact .inl hg

end Callbacks

/-! ### Everything that belongs to a call agrees on it -/

/-- The call `r` of the fiber `f` is known to `R`, and so is its timer. -/
structure Known (R : ℕ → Option (Fin N × Event × ℕ)) (s : Shared κ N) (f : ℕ) (r : Io κ N)
    (t : Option ℕ) : Prop where
  lt : r.info < s.nextInfo
  own : R r.info = some (r.fd, r.event, f)
  timer : ∀ t' ∈ t, (s.timers.obj t').map Timer.func = some r.callback

/-- A callback belongs to a call that is known to `R`. -/
def Meant (R : ℕ → Option (Fin N × Event × ℕ)) (s : Shared κ N) (g : Func κ N) : Prop :=
  ∀ k fd e, g = .timeout k fd e → k < s.nextInfo ∧ ∃ f, R k = some (fd, e, f)

/-- The calls in the machine, where `R` has the descriptor, the event and the fiber of each. -/
structure Calls (R : ℕ → Option (Fin N × Event × ℕ)) (x : Sys κ n N) : Prop where
  code : ∀ i b f c r t, (x.workers i).pc = .exec b f c → c.call = some (r, t) → Known R x.shared f r t
  ctx : ∀ f r t, (x.shared.fibers f).ctx.call = some (r, t) → Known R x.shared f r t
  timers : ∀ t g, (x.shared.timers.obj t).map Timer.func = some g → Meant R x.shared g
  tasks : ∀ g ∈ x.shared.callees, Meant R x.shared g
  workers : ∀ i g, g ∈ (x.workers i).pc.callees ∨ (x.workers i).pc.fires = some g →
    Meant R x.shared g

/-- Calls are numbered upwards, and the functions of the timers stay. -/
structure Grows (s s' : Shared κ N) : Prop where
  nextInfo : s.nextInfo ≤ s'.nextInfo
  func : ∀ t g, (s.timers.obj t).map Timer.func = some g → (s'.timers.obj t).map Timer.func = some g

section Agreement

variable {S : Setup κ n N} {x x' : Sys κ n N} {i : Fin n} {s s' : Shared κ N} {w w' : Worker κ N}
  {f : ℕ} {r : Io κ N} {t : Option ℕ} {R R' : ℕ → Option (Fin N × Event × ℕ)}

lemma TimersStep.func {addr : ℕ → ℕ} {m m' : TimerManager (Func κ N)} (h : TimersStep addr m m')
    {t : ℕ} {g : Func κ N} (hg : (m.obj t).map Timer.func = some g) :
    (m'.obj t).map Timer.func = some g := by
  cases h with
  | same => exact hg
  | add f period deadline use => exact TimerManager.func_addTimer hg
  | cancel t => exact hg
  | expire now => exact (TimerManager.func_getExpiredFuncs addr now t).trans hg

lemma WorkerStep.nextInfo (h : WorkerStep S i s w s' w') : s.nextInfo ≤ s'.nextInfo := by
  cases h with
  | code hc =>
      cases hc with
      | io => exact Nat.le_succ _
      | timerAdd hs => exact (congrArg (fun y => y.1.nextInfo) hs).le
      | event _ hs => exact (event_frame hs).nextInfo.ge
      | evAdd => exact addEvent_frame.nextInfo.ge
      | _ => exact le_rfl
  | eventsIo hs => exact (event_frame hs).nextInfo.ge
  | _ => exact le_rfl

theorem WorkerStep.grows (h : WorkerStep S i s w s' w') : Grows s s' :=
  ⟨h.nextInfo, fun _ _ hg => h.timers.func hg⟩

/-- The function of a timer is there from before, or belongs to the timer just made. -/
lemma WorkerStep.func_origin (h : WorkerStep S i s w s' w') {t : ℕ} {g : Func κ N}
    (hg : (s'.timers.obj t).map Timer.func = some g) :
    (s.timers.obj t).map Timer.func = some g ∨
      ∃ b f period deadline use, w.pc = .exec b f (.timerAdd period deadline use) ∧
        g = (use.func f).1 := by
  cases h with
  | code hc =>
      cases hc with
      | timerAdd hs =>
          have hm := congrArg (fun y => y.1.timers) hs
          rw [← hm] at hg
          exact (TimerManager.func_of_addTimer hg).imp_right fun hnew => ⟨_, _, _, _, _, rfl, hnew⟩
      | event _ hs => exact .inl ((event_frame hs).timers ▸ hg)
      | evAdd => exact .inl (addEvent_frame (s := s).timers ▸ hg)
      | _ => exact .inl hg
  | @expireWrite ff d now evs m gs hexp =>
      have hfunc := TimerManager.func_getExpiredFuncs (m := s.timers) S.addr now t
      rw [hexp] at hfunc
      exact .inl (hfunc.symm.trans hg)
  | eventsIo hs => exact .inl ((event_frame hs).timers ▸ hg)
  | _ => exact .inl hg

lemma Known.grows (h : Known R s f r t) (hR : ∀ k < s.nextInfo, R' k = R k) (hg : Grows s s') :
    Known R' s' f r t :=
  ⟨h.lt.trans_le hg.nextInfo, (hR _ h.lt).trans h.own, fun t' ht => hg.func _ _ (h.timer t' ht)⟩

lemma Meant.grows {g : Func κ N} (h : Meant R s g) (hR : ∀ k < s.nextInfo, R' k = R k)
    (hg : Grows s s') : Meant R' s' g := fun k fd e hk => by
  obtain ⟨hlt, f, hf⟩ := h k fd e hk
  exact ⟨hlt.trans_le hg.nextInfo, f, (hR k hlt).trans hf⟩

lemma Known.meant (h : Known R s f r t) : Meant R s r.callback := fun k fd e hk => by
  cases hk
  exact ⟨h.lt, f, h.own⟩

/-- What a worker knows of the call its fiber has just begun. -/
def Pc.owner : Pc κ N → Option (Fin N × Event × ℕ)
  | .exec _ f c => c.call.map fun y => (y.1.fd, y.1.event, f)
  | _ => none

lemma CallStep.known {c c' : Code κ N} (h : CallStep S s f c s' c' r t)
    (hc : ∀ r t, c.call = some (r, t) → Known R s f r t) (hR : ∀ k < s.nextInfo, R' k = R k)
    (hnew : R' s.nextInfo = some (r.fd, r.event, f)) (hg : Grows s s') : Known R' s' f r t := by
  cases h with
  | start hinfo => exact ⟨by simp [hinfo], by rw [hinfo]; exact hnew, nofun⟩
  | stay hcall _ _ _ => exact (hc _ _ hcall).grows hR hg
  | @arm period deadline t c' s' r changed hs _ =>
      have hold := (hc r none rfl).grows hR hg
      refine ⟨hold.lt, hold.own, fun t' ht => ?_⟩
      cases ht
      have hm := congrArg (fun y => y.1.timers) hs
      have ht := congrArg (fun y => y.2.1) hs
      dsimp only at hm ht
      rw [← hm, ← ht]
      exact TimerManager.func_addTimer_self
  | register => exact (hc _ _ rfl).grows hR hg
  | resume _ =>
      have hold := (hc _ _ rfl).grows hR hg
      exact ⟨hold.lt, hold.own, nofun⟩
  | retry _ => exact (hc _ _ rfl).grows hR hg

lemma Calls.worker (h : Calls R x) (hl : Linked x.shared.fibers (x.workers i).pc)
    (hw : WorkerStep S i x.shared (x.workers i) s' w') : ∃ R', Calls R' (x.put i s' w') := by
  -- a new call takes the next number; where there is none, that number means nothing
  let R' := Function.update R x.shared.nextInfo w'.pc.owner
  have hR : ∀ k < x.shared.nextInfo, R' k = R k := fun k hk => Function.update_of_ne hk.ne _ _
  have hg := hw.grows
  have hs : (x.put i s' w').shared = s' := rfl
  have hmeant : ∀ {g : Func κ N}, Meant R x.shared g → Meant R' s' g := fun hm => hm.grows hR hg
  have horigin : ∀ {g : Func κ N}, (g ∈ s'.callees ∨ g ∈ w'.pc.callees ∨ w'.pc.fires = some g) →
      Meant R' s' g := by
    rintro g hmem k fd e rfl
    refine hmeant ?_ k fd e rfl
    rcases hw.callback_origin hl hmem with (ht | hself) | ⟨t, ht⟩
    · exact h.tasks _ ht
    · exact h.workers i _ hself
    · exact h.timers t _ ht
  refine ⟨R', ⟨fun j b f c r t hpc hc => ?_, fun f r t hc => ?_, fun t g hfunc => ?_,
    fun g hmem => horigin (.inl hmem), fun j g hmem => ?_⟩⟩
  · by_cases hj : j = i
    · subst hj
      rw [Sys.put_workers_self] at hpc
      have hnew : R' x.shared.nextInfo = some (r.fd, r.event, f) := by
        simp [R', hpc, Pc.owner, hc]
      rcases hw.exec_inv hpc with ⟨-, rfl, -⟩ | ⟨c₀, hc₀, hcode⟩
      · rw [(Ctx.call_code _).1] at hc
        exact (h.ctx f r t hc).grows hR hg
      · exact (hcode.call_inv hc).known (fun r t => h.code j b f c₀ r t hc₀) hR hnew hg
    · rw [Sys.put_workers_of_ne hj] at hpc
      exact (h.code j b f c r t hpc hc).grows hR hg
  · rw [hs] at hc
    rcases hw.ctx_inv hc with ⟨hsame, -⟩ | ⟨b, st, res, hpc, hctx, -⟩
    · exact (h.ctx f r t (by rw [hsame]; exact hc)).grows hR hg
    · rw [hctx] at hc
      exact (h.code i b f _ r t hpc hc).grows hR hg
  · rcases hw.func_origin hfunc with hold | ⟨b, f, period, deadline, use, hpc, rfl⟩
    · exact hmeant (h.timers t g hold)
    · cases use with
      | call | sleep => exact nofun
      | io r => exact hmeant (h.code i b f _ r none hpc rfl).meant
  · by_cases hj : j = i
    · subst hj
      rw [Sys.put_workers_self] at hmem
      exact horigin (.inr hmem)
    · rw [Sys.put_workers_of_ne hj] at hmem
      exact hmeant (h.workers j g hmem)

lemma Calls.shared (h : Calls R x) (hw : x'.workers = x.workers) (hg : Grows x.shared x'.shared)
    (hctx : ∀ F r t, (x'.shared.fibers F).ctx.call = some (r, t) →
      (x.shared.fibers F).ctx.call = some (r, t))
    (hfunc : ∀ t g, (x'.shared.timers.obj t).map Timer.func = some g →
      (x.shared.timers.obj t).map Timer.func = some g ∨ ∃ k, g = .user k)
    (hcallees : ∀ k fd e, Func.timeout k fd e ∈ x'.shared.callees →
      Func.timeout k fd e ∈ x.shared.callees) : Calls R x' := by
  have hR : ∀ k < x.shared.nextInfo, R k = R k := fun _ _ => rfl
  refine ⟨fun i b f c r t hpc hc => ?_, fun f r t hc => (h.ctx f r t (hctx f r t hc)).grows hR hg,
    fun t g hg' => ?_, fun g hmem => ?_, fun i g hmem => ?_⟩
  · rw [hw] at hpc
    exact (h.code i b f c r t hpc hc).grows hR hg
  · rcases hfunc t g hg' with hold | ⟨k, rfl⟩
    · exact (h.timers t g hold).grows hR hg
    · exact nofun
  · rintro k fd e rfl
    exact (h.tasks _ (hcallees k fd e hmem)).grows hR hg k fd e rfl
  · rw [hw] at hmem
    exact (h.workers i g hmem).grows hR hg

lemma Calls.init : Calls (fun _ => none) ({} : Sys κ n N) where
  code i b f c r t h := by cases h
  ctx f r t h := by cases h
  timers t g h := by cases h
  tasks g h := by cases h
  workers i g h := by rcases h with h | h <;> cases h

theorem Calls.of_reach (h : Reach (Sys.step S) (WakesUnheld S) {} x) : ∃ R, Calls R x := by
  refine Reach.inv (P := fun x => ∃ R, Calls R x) h ⟨_, Calls.init⟩ fun {x x' a} hr hx hg hs => ?_
  obtain ⟨R, hR⟩ := hx
  cases (step_inv hs).2 with
  | worker hw => exact hR.worker ((Owned.of_reach hr).linked _) hw
  | schedule =>
      refine ⟨R, hR.shared rfl ⟨le_rfl, fun _ _ hf => hf⟩ (fun _ _ _ hc => hc) (fun _ _ => .inl)
        fun k fd e hmem => ?_⟩
      rw [Shared.callees_schedule] at hmem
      exact (List.mem_append.1 hmem).resolve_right (not_timeout_of_user _)
  | @spawn g thr =>
      refine ⟨R, hR.shared rfl ⟨le_rfl, fun _ _ hf => hf⟩ (fun F r t hc => ?_) (fun _ _ => .inl)
        fun k fd e hmem => ?_⟩
      · dsimp only at hc
        by_cases hF : F = x.shared.nextFiber
        · rw [hF, Shared.fibers_spawn] at hc
          cases hc
        · rwa [Shared.fibers_spawn_of_ne hF] at hc
      · have hcallees := Shared.callees_schedule (s := x.shared.newFiber (.user g) x.shared.nextTicket)
          [.fiber x.shared.nextFiber] thr
        exact (List.mem_append.1 (hcallees ▸ hmem)).resolve_right List.not_mem_nil
  | @timerAdd k period deadline t g recurring changed m hk hm =>
      have htimers := congrArg Prod.fst hm
      dsimp only at htimers
      refine ⟨R, hR.shared rfl ⟨le_rfl, fun t g hf => ?_⟩ (fun _ _ _ hc => hc) (fun t g' hf => ?_)
        fun _ _ _ hmem => hmem⟩
      · rw [← htimers]
        exact TimerManager.func_addTimer hf
      · rw [← htimers] at hf
        exact (TimerManager.func_of_addTimer hf).imp_right fun hnew => ⟨g, hnew⟩
  | addTimer | tickleRead | tickleWrite | stop | stopTickle | stopWrite | join | clock =>
      exact ⟨R, hR.shared rfl ⟨le_rfl, fun _ _ hf => hf⟩ (fun _ _ _ hc => hc) (fun _ _ => .inl)
        fun _ _ _ hmem => hmem⟩

end Agreement

end Eva01.Runtime
