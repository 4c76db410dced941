import Eva01.Runtime.Calls

/-!
The timeout of a wait is not lost, as long as its callback does not run before the fiber has
registered for the event (`timeout_not_lost`).

`do_io` arms the timer first and calls `addEvent` after it. The callback marks the call as timed out
and wakes the fiber by `cancelEvent`, which does nothing while the event is not registered; and it
does so once, since a call that is marked is left alone. If the callback runs in between, the fiber
goes on to register and to sleep, and nothing is left that would wake it.
-/

namespace Eva01.Runtime

open Eva01.IOManager (Event Events FdContext Fds Target slotFor)
open Eva01.Lib.Runs

variable {κ : Type*} {n N : ℕ}

/-! ### Registered fibers -/

/-- The event is registered, and its slot has the fiber `F`. -/
def Shared.Registered (s : Shared κ N) (F : ℕ) (fd : Fin N) (e : Event) : Prop :=
  (s.fds.ctx fd).events.has e = true ∧ (s.fds.ctx fd).getContext e = slotFor none F

/-- The event that the next step of a worker takes out of a mask by `delEvent`. -/
def Pc.deletes (S : Setup κ n N) : Pc κ N → Option (Fin N × Event)
  | .exec _ _ (.user k) =>
      match S.prog k with
      | .delEvent fd e _ => some (fd, e)
      | _ => none
  | _ => none

section Registered

variable {S : Setup κ n N} {i : Fin n} {s s' : Shared κ N} {w w' : Worker κ N} {F f : ℕ}
  {fd : Fin N} {e : Event}

lemma Shared.Registered.congr (h : s.Registered F fd e) (hf : s'.fds = s.fds) :
    s'.Registered F fd e := by
  unfold Registered
  rwa [hf]

lemma Shared.deliver_fds (ts : List (Target ℕ (Func κ N))) : (s.deliver ts).fds = s.fds := by
  unfold deliver
  split <;> rfl

lemma queued_of_fired {o : IOManager.Op N ℕ κ} (ho : o.isAdd = false) (hs : s.event o = some s')
    (hF : F ∈ s.fired o) : 0 < s'.queued F := by
  have hle := one_le_sum hF
  rw [(event_effect (F := F) ho hs).2]
  omega

/-- An event section leaves the fiber registered or wakes it, unless it deletes the event. -/
lemma Shared.Registered.event (h : s.Registered F fd e) {o : IOManager.Op N ℕ κ}
    (ho : o.isAdd = false) (hdel : o ≠ .delEvent fd e) (hs : s.event o = some s') :
    s'.Registered F fd e ∨ F ∈ s.fired o := by
  rcases s.event_cases hs with ⟨a, -, rfl⟩ | ⟨out, hout, -, rfl⟩
  · exact .inl h
  · have hfds : (({ s with fds := s.fds.put o.fd out } : Shared κ N).deliver
        (out.targets.map asWork)).fds = s.fds.put o.fd out := Shared.deliver_fds _
    unfold Registered at h ⊢
    rw [hfds]
    by_cases hfd : fd = o.fd
    · subst hfd
      obtain ⟨hctx, -, htargets⟩ := IOManager.apply_taken ho hout
      cases htaken : (o.taken (s.fds.ctx o.fd)).has e with
      | true =>
          have hisDel : o.isDel = false := by
            cases o with
            | delEvent fd' e' =>
                rw [IOManager.Op.taken, Events.has_inter, Events.has_single, Bool.and_eq_true,
                  decide_eq_true_eq] at htaken
                exact absurd (by rw [htaken.2]; rfl) hdel
            | addEvent | cancelEvent | cancelAll | scheduleEvent => rfl
          refine .inr (mem_fired hout ?_)
          rw [htargets, hisDel]
          exact IOManager.mem_targets htaken (by rw [h.2]; rfl)
      | false =>
          left
          simp only [Fds.put, Function.update_self, hctx, FdContext.getContext_events, Events.has_diff,
            htaken, h.1, h.2]
          exact ⟨rfl, trivial⟩
    · left
      simp only [Fds.put, Function.update_of_ne hfd]
      exact h

/-- **`cancelEvent` on the event of a registered fiber wakes it.** -/
lemma Shared.Registered.cancelEvent (h : s.Registered F fd e)
    (hs : s.event (.cancelEvent fd e) = some s') : F ∈ s.fired (.cancelEvent fd e) := by
  rcases s.event_cases hs with ⟨a, ha, -⟩ | ⟨out, hout, -, -⟩
  · have harmed : ((s.fds.ctx fd).getContext e).Armed := h.2 ▸ IOManager.slotFor_armed _ _
    have hok := IOManager.fire_of_armed
      (o := { ctx := s.fds.ctx fd, pending := s.fds.pending, ret := true }) h.1 harmed
    simp [IOManager.Op.apply, IOManager.Op.applyCtl, IOManager.cancelEvent, IOManager.Op.fd, h.1,
      hok] at ha
  · refine mem_fired hout ?_
    rcases IOManager.cancelEvent_ok hout with ⟨hno, -⟩ | ⟨-, -, rfl⟩
    · exact absurd (h.1.symm.trans hno) (by decide)
    · have hslot : (s.fds.ctx fd).getContext e = slotFor none F := h.2
      simp [IOManager.Op.fd, hslot, slotFor, IOManager.EventContext.target]

lemma Shared.Registered.addEvent (h : s.Registered F fd e) (f : ℕ) (a : Adding κ N) :
    (s.addEvent f a).Registered F fd e := by
  unfold Shared.addEvent
  split
  · exact h
  · rename_i out hout
    obtain ⟨hempty, rfl⟩ := IOManager.addEvent_ok hout
    unfold Registered at h ⊢
    by_cases hfd : fd = a.fd
    · subst hfd
      have he : e ≠ a.event := by
        rintro rfl
        exact IOManager.slotFor_ne_empty none F (h.2.symm.trans hempty)
      simp only [Fds.put, Function.update_self, FdContext.setContext_events,
        Events.has_add_of_ne _ he, FdContext.getContext_setContext_of_ne _ he,
        FdContext.getContext_events]
      exact h
    · simp only [Fds.put, Function.update_of_ne hfd]
      exact h

lemma registered_addEvent {r : Io κ N} {t : Option ℕ}
    (h : (s.addEvent f (.wait r t)).crashed = none) :
    (s.addEvent f (.wait r t)).Registered f r.fd r.event := by
  unfold Shared.addEvent at h ⊢
  split at h
  · cases h
  · rename_i out hout
    obtain ⟨-, rfl⟩ := IOManager.addEvent_ok hout
    simp [Shared.Registered, Fds.put, Adding.fd, Adding.event, Adding.func]

theorem WorkerStep.registered (h : WorkerStep S i s w s' w') (hr : s.Registered F fd e)
    (hdel : w.pc.deletes S ≠ some (fd, e)) :
    s'.Registered F fd e ∨ (F ∈ w.pc.woken S s ∧ 0 < s'.queued F) := by
  cases h with
  | @code ff d b f c c' s' hc =>
      cases hc with
      | @event _ _ o _ hop hs =>
          obtain ⟨ho, -, -⟩ := Code.eventOp_plain (F := F) (f := f) hop
          have hno : o ≠ .delEvent fd e := by
            rintro rfl
            unfold Code.eventOp at hop
            split at hop
            · cases hop
            · split at hop <;> simp_all [Pc.deletes]
            · cases hop
          rw [Pc.woken_event hop]
          exact (hr.event ho hno hs).imp_right fun hF => ⟨hF, queued_of_fired ho hs hF⟩
      | evAdd => exact .inl (hr.addEvent _ _)
      | timerAdd hs => exact .inl (hr.congr (congrArg (fun y => y.1.fds) hs).symm)
      | _ => exact .inl (hr.congr rfl)
  | @eventsIo ff d fd' r evs s' hs =>
      have hkeep := hr.event (o := .scheduleEvent fd' r) rfl nofun hs
      exact hkeep.imp_right fun hF => ⟨hF, queued_of_fired rfl hs hF⟩
  | _ => exact .inl (hr.congr rfl)

end Registered

/-! ### Timers and callbacks of a wait -/

namespace Sys

variable (x : Sys κ n N)

/-- The callback has been collected, and has not come to the test of its `timer_info`. -/
def Collected (g : Func κ N) : Prop := g ∈ x.shared.callees ∨ ∃ i, g ∈ (x.workers i).pc.callees

/-- A worker is about to end the callback by `cancelEvent`. -/
def Fires (g : Func κ N) : Prop := ∃ i, (x.workers i).pc.fires = some g

/-- The timer `t` of the call is armed, or its callback has been collected. -/
def Pending (r : Io κ N) (t : ℕ) : Prop :=
  x.shared.timers.Armed t r.callback ∨ x.Collected r.callback

/-- `F` waits in the call `r`: it is registered, and its timeout is still to come. -/
structure Kept (F : ℕ) (r : Io κ N) (t : ℕ) : Prop where
  registered : x.shared.Registered F r.fd r.event
  timeout : ((x.shared.infos r.info).cancelled = false ∧ x.Pending r t) ∨ x.Fires r.callback

end Sys

section Steps

variable {S : Setup κ n N} {x x' : Sys κ n N} {i : Fin n} {s s' : Shared κ N} {w w' : Worker κ N}
  {F k t : ℕ} {r : Io κ N} {R : ℕ → Option (Fin N × Event × ℕ)}

theorem WorkerStep.infos (h : WorkerStep S i s w s' w') (hk : k < s.nextInfo) :
    s'.infos k = s.infos k ∨
      (w.pc.tests = some k ∧ (s'.infos k).alive = (s.infos k).alive ∧
        ∃ fd e, Func.timeout k fd e ∈ w.pc.callees ∧ w'.pc.fires = some (.timeout k fd e)) ∨
      ∃ b f c r t, w.pc = .exec b f c ∧ c.call = some (r, t) ∧ r.info = k := by
  cases h with
  | @code ff d b f c c' s' hc =>
      cases hc with
      | io => exact .inl (Function.update_of_ne hk.ne _ _)
      | @timeoutAct k' fd e ha hcan =>
          by_cases hkk : k = k'
          · subst hkk
            refine .inr (.inl ⟨rfl, ?_, fd, e, .head _, rfl⟩)
            simp
          · exact .inl (Function.update_of_ne hkk _ _)
      | @ioEnd _ r hio =>
          by_cases hkk : k = r.info
          · exact .inr (.inr ⟨b, f, c, r, none, rfl, by rcases hio with rfl | rfl <;> rfl, hkk.symm⟩)
          · exact .inl (Function.update_of_ne hkk _ _)
      | event _ hs => exact .inl (by rw [(event_frame hs).infos])
      | evAdd => exact .inl (by rw [addEvent_frame.infos])
      | timerAdd hs => exact .inl (congrArg (fun y => y.1.infos k) hs).symm
      | _ => exact .inl rfl
  | eventsIo hs => exact .inl (by rw [(event_frame hs).infos])
  | _ => exact .inl rfl

theorem WorkerStep.armed (h : WorkerStep S i s w s' w') {g : Func κ N} (ha : s.timers.Armed t g) :
    s'.timers.Armed t g ∨ g ∈ w'.pc.callees ∨ ∃ b f r, w.pc = .exec b f (.ioResume r (some t)) := by
  cases h with
  | @code ff d b f c c' s' hc =>
      cases hc with
      | timerAdd hs =>
          have hm := congrArg (fun y => y.1.timers) hs
          dsimp only at hm
          rw [← hm]
          exact .inl (TimerManager.armed_addTimer ha)
      | @ioResumeSome r t' =>
          by_cases htt : t = t'
          · exact .inr (.inr ⟨b, f, r, by rw [htt]⟩)
          · exact .inl (TimerManager.armed_cancel S.addrInj ha htt)
      | event _ hs => exact .inl (by rwa [(event_frame hs).timers])
      | evAdd => exact .inl (by rwa [addEvent_frame.timers])
      | _ => exact .inl ha
  | @expireWrite ff d now evs m gs hexp =>
      have hexp' := TimerManager.armed_getExpiredFuncs S.addr now ha
      rw [hexp] at hexp'
      refine hexp'.imp_right fun hmem => .inl ?_
      cases gs with
      | nil => cases hmem
      | cons g gs => exact hmem
  | eventsIo hs => exact .inl (by rwa [(event_frame hs).timers])
  | _ => exact .inl ha

lemma Sys.Collected.worker {fd : Fin N} {e : Event} (h : x.Collected (.timeout k fd e))
    (hl : Linked x.shared.fibers (x.workers i).pc)
    (hw : WorkerStep S i x.shared (x.workers i) s' w') :
    (x.put i s' w').Collected (.timeout k fd e) ∨
      ((x.workers i).pc.tests = some k ∧ w'.pc.fires = some (.timeout k fd e)) ∨
        (x.shared.infos k).alive = false ∨ (x.shared.infos k).cancelled = true := by
  by_cases hself : Func.timeout k fd e ∈ x.shared.callees ∨
      Func.timeout k fd e ∈ (x.workers i).pc.callees
  · refine (hw.callback hl hself).imp_left fun hmem => hmem.imp_right fun hi => ⟨i, ?_⟩
    rwa [Sys.put_workers_self]
  · obtain ⟨hno, hni⟩ := not_or.1 hself
    obtain ⟨j, hj⟩ := h.resolve_left hno
    have hji : j ≠ i := fun hji => hni (hji ▸ hj)
    exact .inl (.inr ⟨j, by rwa [Sys.put_workers_of_ne hji]⟩)

/-- Of two workers only the fiber's own one is at a point of its call. -/
lemma Calls.executing (hc : Calls R x) {T : Option ℕ} (hk : Known R x.shared F r T)
    {b : Branch κ N} {f : ℕ} {c : Code κ N} {r' : Io κ N} {T' : Option ℕ}
    (hpc : (x.workers i).pc = .exec b f c) (hcall : c.call = some (r', T'))
    (hinfo : r'.info = r.info) : (x.workers i).pc.executing = some F := by
  have hown := (hc.code i b f c r' T' hpc hcall).own
  rw [hinfo, hk.own] at hown
  rw [hpc]
  exact congrArg some (Prod.ext_iff.1 (Prod.ext_iff.1 (Option.some.inj hown)).2).2.symm

lemma Calls.infos (hc : Calls R x) {T : Option ℕ} (hk : Known R x.shared F r T)
    (hexec : (x.workers i).pc.executing ≠ some F)
    (hw : WorkerStep S i x.shared (x.workers i) s' w') :
    (s'.infos r.info).alive = (x.shared.infos r.info).alive ∧
      ((s'.infos r.info).cancelled = (x.shared.infos r.info).cancelled ∨
        ((x.workers i).pc.tests = some r.info ∧ w'.pc.fires = some r.callback)) := by
  rcases hw.infos hk.lt with hsame | ⟨htests, halive, fd, e, hmem, hfires⟩ |
      ⟨b, f, c, r', t', hpc, hcall, hinfo⟩
  · rw [hsame]
    exact ⟨rfl, .inl rfl⟩
  · obtain ⟨-, f, hf⟩ := hc.workers i _ (.inl hmem) _ _ _ rfl
    rw [hk.own] at hf
    cases hf
    exact ⟨halive, .inr ⟨htests, hfires⟩⟩
  · exact absurd (hc.executing hk hpc hcall hinfo) hexec

lemma Sys.Pending.worker (h : x.Pending r t) (hc : Calls R x) (hk : Known R x.shared F r (some t))
    (hl : Linked x.shared.fibers (x.workers i).pc)
    (hexec : (x.workers i).pc.executing ≠ some F)
    (halive : (x.shared.infos r.info).alive = true)
    (hcan : (x.shared.infos r.info).cancelled = false)
    (hw : WorkerStep S i x.shared (x.workers i) s' w') :
    (x.put i s' w').Pending r t ∨
      ((x.workers i).pc.tests = some r.info ∧ w'.pc.fires = some r.callback) := by
  rcases h with harmed | hcol
  · rcases hw.armed harmed with harmed' | hmem | ⟨b, f, r', hpc⟩
    · exact .inl (.inl harmed')
    · exact .inl (.inr (.inr ⟨i, by rwa [Sys.put_workers_self]⟩))
    · -- the timer of another call has another callback
      have htimer := (hc.code i b f _ r' (some t) hpc rfl).timer t rfl
      have hcb := Option.some.inj (htimer.symm.trans harmed.2)
      have hinfo : r'.info = r.info := by
        simp only [Io.callback, Func.timeout.injEq] at hcb
        exact hcb.1
      exact absurd (hc.executing hk hpc rfl hinfo) hexec
  · rcases hcol.worker hl hw with hcol' | hfires | hno | hno
    · exact .inl (.inr hcol')
    · exact .inr hfires
    · rw [halive] at hno
      cases hno
    · rw [hcan] at hno
      cases hno

/-- A worker that is about to end a callback does so by `cancelEvent`. -/
lemma WorkerStep.fires (h : WorkerStep S i s w s' w') {fd : Fin N} {e : Event}
    (hf : w.pc.fires = some (.timeout k fd e)) :
    s.event (.cancelEvent fd e) = some s' ∧ w.pc.woken S s = s.fired (.cancelEvent fd e) := by
  obtain ⟨pc, ff, d⟩ := w
  obtain ⟨b, f, rfl⟩ : ∃ b f, pc = .exec b f (.timeoutFire k fd e) := by
    unfold Pc.fires at hf
    split at hf
    · rename_i hpc
      cases hf
      exact ⟨_, _, hpc⟩
    · cases hf
  cases h with
  | code hc =>
      cases hc with
      | event hop hs =>
          cases hop
          exact ⟨hs, rfl⟩
      | ioEnd hio => rcases hio with hio | hio <;> cases hio

theorem Sys.Kept.worker (h : x.Kept F r t) (hc : Calls R x) (hk : Known R x.shared F r (some t))
    (hl : Linked x.shared.fibers (x.workers i).pc)
    (hexec : (x.workers i).pc.executing ≠ some F)
    (halive : (x.shared.infos r.info).alive = true)
    (hdel : (x.workers i).pc.deletes S ≠ some (r.fd, r.event))
    (hw : WorkerStep S i x.shared (x.workers i) s' w') :
    (x.put i s' w').Kept F r t ∨
      (F ∈ (x.workers i).pc.woken S x.shared ∧ 0 < s'.queued F) := by
  refine (hw.registered h.registered hdel).elim (fun hreg => ?_) .inr
  have hself : w'.pc.fires = some r.callback → (x.put i s' w').Kept F r t := fun hf =>
    ⟨hreg, .inr ⟨i, by rwa [Sys.put_workers_self]⟩⟩
  rcases h.timeout with ⟨hcan, hpend⟩ | ⟨j, hj⟩
  · rcases hpend.worker hc hk hl hexec halive hcan hw with hpend' | ⟨-, hf⟩
    · rcases (hc.infos hk hexec hw).2 with hcan' | ⟨-, hf⟩
      · exact .inl ⟨hreg, .inl ⟨hcan'.trans hcan, hpend'⟩⟩
      · exact .inl (hself hf)
    · exact .inl (hself hf)
  · by_cases hji : j = i
    · subst hji
      obtain ⟨hs, hwoken⟩ := hw.fires hj
      have hF := h.registered.cancelEvent hs
      exact .inr ⟨hwoken ▸ hF, queued_of_fired rfl hs hF⟩
    · exact .inl ⟨hreg, .inr ⟨j, by rwa [Sys.put_workers_of_ne hji]⟩⟩

lemma Code.callees_of_call {b : Branch κ N} {f : ℕ} {c : Code κ N} {y : Io κ N × Option ℕ}
    (h : c.call = some y) : (Pc.exec b f c).callees = [] ∧ (Pc.exec b f c).fires = none := by
  cases c <;> first | exact ⟨rfl, rfl⟩ | cases h

lemma Sys.Pending.put (h : x.Pending r t) (htasks : s'.tasks = x.shared.tasks)
    (htimers : s'.timers = x.shared.timers) (hi : (x.workers i).pc.callees = []) :
    (x.put i s' w').Pending r t := by
  have hs : (x.put i s' w').shared = s' := rfl
  unfold Sys.Pending Sys.Collected at h ⊢
  rw [hs, htimers, Shared.callees_congr htasks]
  refine h.imp_right fun hcol => hcol.imp_right fun ⟨j, hj⟩ => ⟨j, ?_⟩
  have hji : j ≠ i := by
    rintro rfl
    rw [hi] at hj
    cases hj
  rwa [Sys.put_workers_of_ne hji]

lemma Sys.Kept.put (h : x.Kept F r t) (hs : Still x.shared s') (hi : (x.workers i).pc.callees = [])
    (hf : (x.workers i).pc.fires = none) : (x.put i s' w').Kept F r t := by
  refine ⟨h.registered.congr hs.fds, ?_⟩
  rcases h.timeout with ⟨hcan, hpend⟩ | ⟨j, hj⟩
  · refine .inl ⟨?_, hpend.put hs.tasks hs.timers hi⟩
    have hinfos : (x.put i s' w').shared.infos = x.shared.infos := hs.infos
    rwa [hinfos]
  · have hji : j ≠ i := by
      rintro rfl
      rw [hf] at hj
      cases hj
    exact .inr ⟨j, by rwa [Sys.put_workers_of_ne hji]⟩

end Steps

/-! ### Fibers that wait -/

/-- `F` in the hands of a worker or executed by it. -/
def Pc.takes (F : ℕ) : Pc κ N → ℕ
  | .popped tk _ | .tickleRead tk | .tickleWrite tk | .dispatch tk => jobHolds F tk
  | .call _ f | .swapIn _ f | .exec _ f _ => one F f
  | _ => 0

/-- **`F` is suspended in the call `r` with the timer `t`**, and has not been scheduled again. -/
structure Waits (x : Sys κ n N) (F : ℕ) (r : Io κ N) (t : ℕ) : Prop where
  state : (x.shared.fibers F).state = .suspend
  ctx : (x.shared.fibers F).ctx = .at (.io r (some t))
  queued : x.shared.queued F = 0
  free : ∀ i, (x.workers i).pc.takes F = 0

section Waiting

variable {S : Setup κ n N} {x : Sys κ n N} {i : Fin n} {s s' : Shared κ N} {w w' : Worker κ N}
  {F t : ℕ} {r : Io κ N}

lemma Pc.executing_of_takes {pc : Pc κ N} (h : pc.takes F = 0) : pc.executing ≠ some F := by
  unfold executing
  split
  · rintro ⟨⟩
    simp [takes] at h
  · nofun

lemma CodeStep.call_of_born {f : ℕ} {c c' : Code κ N} (h : CodeStep S s f c s' c')
    (hb : born s s' F ≠ 0) : (s'.fibers F).ctx.call = none := by
  cases h with
  | @spawn k g thr =>
      rw [born_ne_zero rfl hb, Shared.fibers_spawn]
      rfl
  | event _ hs => exact absurd (born_eq_zero (event_frame hs).nextFiber) hb
  | evAdd => exact absurd (born_eq_zero addEvent_frame.nextFiber) hb
  | timerAdd hs => exact absurd (born_eq_zero (congrArg (fun y => y.1.nextFiber) hs).symm) hb
  | _ => exact absurd (born_eq_zero rfl) hb

theorem WorkerStep.waits (h : WorkerStep S i s w s' w') (hst : (s'.fibers F).state = .suspend)
    (hctx : (s'.fibers F).ctx = .at (.io r (some t))) (hq : s'.queued F = 0)
    (hf : w'.pc.takes F = 0) :
    (s.fibers F = s'.fibers F ∧ s.queued F = 0 ∧ w.pc.takes F = 0) ∨
      ∃ b st, w.pc = .exec b F (.yieldSwap st (.io r (some t))) ∧ Still s s' := by
  have hne : ∀ {f : ℕ}, one F f = 0 → F ≠ f := ne_of_one
  cases h with
  | @poppedNone ff d need => cases need <;> exact .inl ⟨rfl, hq, hf⟩
  | @poppedSome ff d need tk => cases need <;> exact .inl ⟨rfl, hq, hf⟩
  | @selectTook ff d tk rest hsel hok hlock =>
      have hsum := sum_took hsel fun tk => tk.work.holds F
      simp only [Pc.takes, jobHolds] at hf
      simp only [Shared.queued] at hq
      refine .inl ⟨rfl, ?_, rfl⟩
      simp only [Shared.queued]
      omega
  | @dispatchDone ff d f thr hdone =>
      have hF : f ≠ F := by
        rintro rfl
        rw [hst] at hdone
        cases hdone
      exact .inl ⟨rfl, hq, one_of_ne hF⟩
  | @dispatchReset d f T g thr | @call ff d b f _ =>
      have hF : F ≠ f := hne hf
      exact .inl ⟨(Function.update_of_ne hF _ _).symm, hq, by
        simp [Pc.takes, jobHolds, Work.holds, one_of_ne hF.symm]⟩
  | @dispatchNew d T g thr =>
      exact .inl ⟨(Function.update_of_ne (hne hf) _ _).symm, hq, rfl⟩
  | @code ff d b f c c' s' hc =>
      obtain ⟨l, htasks⟩ := hc.tasks
      have hmono := Shared.queued_mono (F := F) htasks
      have hb : born s s' F = 0 := by
        by_contra hb
        have hcall := hc.call_of_born hb
        rw [hctx] at hcall
        cases hcall
      exact .inl ⟨((hc.fibers F).2.2 hb (hne hf)).symm, by omega, hf⟩
  | @yieldSwap ff d b f st res =>
      by_cases hF : F = f
      · subst hF
        have hres : res = .io r (some t) := by simpa [Shared.setFiber] using hctx
        subst hres
        exact .inr ⟨b, st, rfl, rfl, rfl, rfl, rfl, rfl⟩
      · exact .inl ⟨(Function.update_of_ne hF _ _).symm, hq, one_of_ne (Ne.symm hF)⟩
  | @finSwap ff d b f st =>
      by_cases hF : F = f
      · subst hF
        simp [Shared.setFiber] at hctx
      · exact .inl ⟨(Function.update_of_ne hF _ _).symm, hq, one_of_ne (Ne.symm hF)⟩
  | @retire ff d f =>
      by_cases hF : F = f
      · subst hF
        simp [Shared.setFiber] at hctx
      · exact .inl ⟨(Function.update_of_ne hF _ _).symm, hq, rfl⟩
  | requeue =>
      rw [Shared.queued_schedule] at hq
      exact .inl ⟨rfl, by omega, rfl⟩
  | @expireWrite ff d now evs m gs hexp => cases gs <;> exact .inl ⟨rfl, hq, rfl⟩
  | expireSched =>
      rw [Shared.queued_schedule] at hq
      exact .inl ⟨rfl, by omega, rfl⟩
  | eventsIo hs =>
      obtain ⟨l, htasks⟩ := event_tasks hs
      have hmono := Shared.queued_mono (F := F) htasks
      exact .inl ⟨by rw [(event_frame hs).fibers], by omega, rfl⟩
  | drain =>
      rw [Shared.queued_pipe s (s.pipe - 256)] at hq
      exact .inl ⟨rfl, hq, rfl⟩
  | _ => exact .inl ⟨rfl, hq, hf⟩

end Waiting

/-! ### The machine -/

/-- The call that a worker's fiber is in before it has registered. -/
def Pc.registering : Pc κ N → Option ℕ
  | .exec _ _ c => if c.registers then c.call.map fun y => y.1.info else none
  | _ => none

/-- **Timeouts meet registered fibers**: a timeout callback tests its `timer_info` only when the
fiber of the call is not on its way to `addEvent`, and `delEvent` is not used on an event that a
fiber is registered for. -/
def TimesOutRegistered (S : Setup κ n N) (x : Sys κ n N) : Act κ n N → Prop
  | .worker i _ =>
      (∀ k ∈ (x.workers i).pc.tests, ∀ j, (x.workers j).pc.registering ≠ some k) ∧
        ∀ y ∈ (x.workers i).pc.deletes S, (x.shared.fds.ctx y.1).events.has y.2 = true →
          ((x.shared.fds.ctx y.1).getContext y.2).fiber = none
  | _ => True

instance (S : Setup κ n N) (x : Sys κ n N) (a : Act κ n N) :
    Decidable (TimesOutRegistered S x a) :=
  match a with
  | .worker i _ => inferInstanceAs (Decidable
      ((∀ k ∈ (x.workers i).pc.tests, ∀ j, (x.workers j).pc.registering ≠ some k) ∧
        ∀ y ∈ (x.workers i).pc.deletes S, (x.shared.fds.ctx y.1).events.has y.2 = true →
          ((x.shared.fds.ctx y.1).getContext y.2).fiber = none))
  | .schedule _ _ | .spawn _ _ | .addTimer _ _ _ | .external _ | .stop | .stopTickle | .join
  | .clock _ => inferInstanceAs (Decidable True)

/-- The worker `i` executes the fiber `f` at the point `c` of the call `r`. -/
structure InCall (x : Sys κ n N) (i : Fin n) (f : ℕ) (c : Code κ N) (r : Io κ N) (t : Option ℕ) :
    Prop where
  pc : ∃ b, (x.workers i).pc = .exec b f c
  call : c.call = some (r, t)

structure Timely (x : Sys κ n N) : Prop where
  /-- a call under way has its `timer_info` -/
  alive : ∀ {i f c r t}, InCall x i f c r t → (x.shared.infos r.info).alive = true
  parked : ∀ {F r t}, (∀ i, (x.workers i).pc.executing ≠ some F) →
    (x.shared.fibers F).ctx.call = some (r, t) → (x.shared.infos r.info).alive = true
  /-- it is not timed out before it has registered -/
  unmarked : ∀ {i f c r t}, InCall x i f c r t → c.registers = true →
    (x.shared.infos r.info).cancelled = false
  armed : ∀ {i f c r t}, InCall x i f c r (some t) → c.registers = true → x.Pending r t
  leaving : x.shared.crashed = none → ∀ {i f c r t}, InCall x i f c r (some t) → c.leaves = true →
    x.Kept f r t
  waiting : ∀ {F r t}, Waits x F r t → x.Kept F r t

section Machine

variable {S : Setup κ n N} {x x' : Sys κ n N} {i j : Fin n} {s' : Shared κ N} {w' : Worker κ N}
  {ch : Choice N} {F f t : ℕ} {c : Code κ N} {r : Io κ N} {R : ℕ → Option (Fin N × Event × ℕ)}

lemma Timely.init : Timely ({} : Sys κ n N) where
  alive h := by obtain ⟨⟨b, hb⟩, -⟩ := h; cases hb
  parked _ h := by cases h
  unmarked h := by obtain ⟨⟨b, hb⟩, -⟩ := h; cases hb
  armed h := by obtain ⟨⟨b, hb⟩, -⟩ := h; cases hb
  leaving _ _ _ _ _ _ h := by obtain ⟨⟨b, hb⟩, -⟩ := h; cases hb
  waiting h := by cases h.ctx

lemma Calls.inCall (hc : Calls R x) {T : Option ℕ} (h : InCall x i f c r T) :
    Known R x.shared f r T := by
  obtain ⟨⟨b, hpc⟩, hcall⟩ := h
  exact hc.code i b f c r T hpc hcall

lemma InCall.runs {T : Option ℕ} (h : InCall x i f c r T) : (x.workers i).pc.runs f = 1 := by
  obtain ⟨⟨b, hpc⟩, -⟩ := h
  rw [hpc]
  exact one_self f

lemma InCall.executing_ne {T : Option ℕ} (h : InCall x j f c r T) (hx : Owned x) (hji : j ≠ i) :
    (x.workers i).pc.executing ≠ some f := fun hex => by
  have hi := Pc.runs_of_executing hex
  have hj := h.runs
  exact hji (hx.runs_unique (F := f) (by omega) (by omega))

/-- After a step of the worker `i`: another worker is where it was, or `i` has swapped the fiber in,
or has made a step in it. -/
lemma InCall.before {T : Option ℕ} (h : InCall (x.put i s' w') j f c r T)
    (hw : WorkerStep S i x.shared (x.workers i) s' w') :
    (j ≠ i ∧ InCall x j f c r T) ∨
      ((∃ b, (x.workers i).pc = .swapIn b f) ∧ (x.shared.fibers f).ctx.call = some (r, T) ∧
        c.registers = false ∧ c.leaves = false ∧ Still x.shared s') ∨
      ∃ c₀ b, (x.workers i).pc = .exec b f c₀ ∧ CallStep S x.shared f c₀ s' c r T := by
  obtain ⟨⟨b, hpc⟩, hcall⟩ := h
  by_cases hji : j = i
  · subst hji
    rw [Sys.put_workers_self] at hpc
    rcases hw.exec_inv hpc with ⟨hswap, rfl, hstill⟩ | ⟨c₀, hc₀, hcode⟩
    · obtain ⟨hctx, hreg, hleave⟩ := (x.shared.fibers f).ctx.call_code
      exact .inr (.inl ⟨⟨b, hswap⟩, hctx ▸ hcall, hreg, hleave, hstill⟩)
    · exact .inr (.inr ⟨c₀, b, hc₀, hcode.call_inv hcall⟩)
  · rw [Sys.put_workers_of_ne hji] at hpc
    exact .inl ⟨hji, ⟨b, hpc⟩, hcall⟩

lemma Owned.not_executing (hx : Owned x) {b : Branch κ N} (hpc : (x.workers i).pc = .swapIn b f)
    (j : Fin n) : (x.workers j).pc.executing ≠ some f := fun hex => by
  have hi : (x.workers i).pc.runs f = 1 := by rw [hpc]; exact one_self f
  have hj := Pc.runs_of_executing hex
  obtain rfl := hx.runs_unique (F := f) (i := i) (j := j) (by omega) (by omega)
  rw [hpc] at hex
  cases hex

lemma addTimer_infos {period deadline : ℕ} {use : TimerUse κ N} {changed : Bool}
    (h : x.shared.addTimer S.addr f period deadline use = (s', t, changed)) :
    s'.infos = x.shared.infos := (congrArg (fun y => y.1.infos) h).symm

/-! ### One step of a worker -/

lemma Timely.alive_worker (h : Timely x) (hc : Calls R x) (hx : Owned x)
    (hw : WorkerStep S i x.shared (x.workers i) s' w') {T : Option ℕ}
    (hin : InCall (x.put i s' w') j f c r T) : (s'.infos r.info).alive = true := by
  rcases hin.before hw with ⟨hji, hold⟩ | ⟨⟨b, hswap⟩, hctx, -, -, hstill⟩ | ⟨c₀, b, hpc, hcall⟩
  · rw [(hc.infos (hc.inCall hold) (hold.executing_ne hx hji) hw).1]
    exact h.alive hold
  · rw [hstill.infos]
    exact h.parked (hx.not_executing hswap) hctx
  · cases hcall with
    | start hinfo => simp [hinfo]
    | stay hc₀ _ _ hstill =>
        rw [hstill.infos]
        exact h.alive ⟨⟨b, hpc⟩, hc₀⟩
    | arm hs _ =>
        rw [addTimer_infos hs]
        exact h.alive ⟨⟨b, hpc⟩, rfl⟩
    | register =>
        rw [addEvent_frame.infos]
        exact h.alive ⟨⟨b, hpc⟩, rfl⟩
    | resume hinfos =>
        rw [hinfos]
        exact h.alive ⟨⟨b, hpc⟩, rfl⟩
    | retry _ => exact h.alive ⟨⟨b, hpc⟩, rfl⟩

lemma Timely.parked_worker (h : Timely x) (hc : Calls R x)
    (hw : WorkerStep S i x.shared (x.workers i) s' w') {T : Option ℕ}
    (hex : ∀ j, ((x.put i s' w').workers j).pc.executing ≠ some F)
    (hctx : (s'.fibers F).ctx.call = some (r, T)) : (s'.infos r.info).alive = true := by
  rcases hw.ctx_inv hctx with ⟨hsame, hself⟩ | ⟨b, st, res, hpc, hat, hstill⟩
  · have hi : (x.workers i).pc.executing ≠ some F := fun hi => by
      have := hex i
      rw [Sys.put_workers_self] at this
      exact this (hself hi)
    rw [← hsame] at hctx
    rw [(hc.infos (hc.ctx F r T hctx) hi hw).1]
    refine h.parked (fun j => ?_) hctx
    by_cases hji : j = i
    · exact hji ▸ hi
    · have := hex j
      rwa [Sys.put_workers_of_ne hji] at this
  · rw [hat] at hctx
    rw [hstill.infos]
    exact h.alive ⟨⟨b, hpc⟩, hctx⟩

lemma InCall.registering {T : Option ℕ} (hin : InCall x j f c r T) (hreg : c.registers = true) :
    (x.workers j).pc.registering = some r.info := by
  obtain ⟨⟨b, hpc⟩, hcall⟩ := hin
  simp [hpc, Pc.registering, hreg, hcall]

lemma Timely.unmarked_worker (h : Timely x) (hc : Calls R x) (hx : Owned x)
    (hg : TimesOutRegistered S x (.worker i ch)) (hw : WorkerStep S i x.shared (x.workers i) s' w')
    {T : Option ℕ} (hin : InCall (x.put i s' w') j f c r T) (hreg : c.registers = true) :
    (s'.infos r.info).cancelled = false := by
  rcases hin.before hw with ⟨hji, hold⟩ | ⟨-, -, hno, -, -⟩ | ⟨c₀, b, hpc, hcall⟩
  · rcases (hc.infos (hc.inCall hold) (hold.executing_ne hx hji) hw).2 with hsame | ⟨htests, -⟩
    · rw [hsame]
      exact h.unmarked hold hreg
    · exact absurd (hold.registering hreg) (hg.1 _ htests j)
  · rw [hreg] at hno
    cases hno
  · cases hcall with
    | start hinfo => simp [hinfo]
    | stay hc₀ hr _ hstill =>
        rw [hstill.infos]
        exact h.unmarked ⟨⟨b, hpc⟩, hc₀⟩ (hr ▸ hreg)
    | arm hs _ =>
        rw [addTimer_infos hs]
        exact h.unmarked ⟨⟨b, hpc⟩, rfl⟩ rfl
    | register | resume => cases hreg
    | retry hcan => exact hcan

lemma Timely.armed_worker (h : Timely x) (hc : Calls R x) (hx : Owned x)
    (hg : TimesOutRegistered S x (.worker i ch)) (hw : WorkerStep S i x.shared (x.workers i) s' w')
    (hin : InCall (x.put i s' w') j f c r (some t)) (hreg : c.registers = true) :
    (x.put i s' w').Pending r t := by
  rcases hin.before hw with ⟨hji, hold⟩ | ⟨-, -, hno, -, -⟩ | ⟨c₀, b, hpc, hcall⟩
  · rcases (h.armed hold hreg).worker hc (hc.inCall hold) (hx.linked i) (hold.executing_ne hx hji)
        (h.alive hold) (h.unmarked hold hreg) hw with hpend | ⟨htests, -⟩
    · exact hpend
    · exact absurd (hold.registering hreg) (hg.1 _ htests j)
  · rw [hreg] at hno
    cases hno
  · cases hcall with
    | stay hc₀ hr _ hstill =>
        have hpend := h.armed ⟨⟨b, hpc⟩, hc₀⟩ (hr ▸ hreg)
        exact hpend.put hstill.tasks hstill.timers (hpc ▸ (Code.callees_of_call hc₀).1)
    | arm hs _ =>
        have hm := congrArg (fun y => y.1.timers) hs
        have ht := congrArg (fun y => y.2.1) hs
        dsimp only at hm ht
        left
        have hs' : (x.put i s' w').shared.timers = s'.timers := rfl
        rw [hs', ← hm, ← ht]
        exact TimerManager.armed_addTimer_self S.addrInj
    | register => cases hreg

lemma Shared.Registered.not_deleted {fd : Fin N} {e : Event} (hr : x.shared.Registered F fd e)
    (hg : TimesOutRegistered S x (.worker i ch)) : (x.workers i).pc.deletes S ≠ some (fd, e) :=
  fun hd => by
    have hnone := hg.2 _ hd hr.1
    rw [hr.2] at hnone
    cases hnone

lemma Timely.leaving_worker (h : Timely x) (hc : Calls R x) (hx : Owned x)
    (hu : WakesUnheld S x (.worker i ch)) (hg : TimesOutRegistered S x (.worker i ch))
    (hw : WorkerStep S i x.shared (x.workers i) s' w') (hcrash : x.shared.crashed = none)
    (hcrash' : s'.crashed = none) (hin : InCall (x.put i s' w') j f c r (some t))
    (hleave : c.leaves = true) :
    (x.put i s' w').Kept f r t := by
  rcases hin.before hw with ⟨hji, hold⟩ | ⟨-, -, -, hno, -⟩ | ⟨c₀, b, hpc, hcall⟩
  · have hkept := h.leaving hcrash hold hleave
    rcases hkept.worker hc (hc.inCall hold) (hx.linked i) (hold.executing_ne hx hji) (h.alive hold)
        (hkept.registered.not_deleted hg) hw with hkept' | ⟨hwoken, -⟩
    · exact hkept'
    · -- the worker still has the fiber
      have hun := hu f hwoken j
      rw [hold.runs] at hun
      cases hun
  · rw [hleave] at hno
    cases hno
  · cases hcall with
    | stay hc₀ _ hl hstill =>
        have hkept := h.leaving hcrash ⟨⟨b, hpc⟩, hc₀⟩ (hl ▸ hleave)
        obtain ⟨hcallees, hfires⟩ := Code.callees_of_call (b := b) (f := f) hc₀
        exact hkept.put hstill (hpc ▸ hcallees) (hpc ▸ hfires)
    | arm _ hno =>
        rw [hleave] at hno
        cases hno
    | register =>
        have hold : InCall x i f _ r (some t) := ⟨⟨b, hpc⟩, rfl⟩
        have hpend := h.armed hold rfl
        have htasks : (x.shared.addEvent f (.wait r (some t))).tasks = x.shared.tasks := by
          unfold Shared.addEvent
          split <;> rfl
        refine ⟨registered_addEvent hcrash', .inl ⟨?_, ?_⟩⟩
        · have hinfos := (addEvent_frame (s := x.shared) (f := f) (a := .wait r (some t))).infos
          have hs : ((x.put i (x.shared.addEvent f (.wait r (some t))) w').shared.infos r.info) =
            x.shared.infos r.info := congrFun hinfos _
          rw [hs]
          exact h.unmarked hold rfl
        · exact hpend.put htasks addEvent_frame.timers (hpc ▸ rfl)

lemma Timely.waiting_worker (h : Timely x) (hc : Calls R x) (hx : Owned x)
    (hg : TimesOutRegistered S x (.worker i ch)) (hw : WorkerStep S i x.shared (x.workers i) s' w')
    (hcrash : x.shared.crashed = none) (hwait : Waits (x.put i s' w') F r t) :
    (x.put i s' w').Kept F r t := by
  have hfree : ∀ j, ((x.put i s' w').workers j).pc.takes F = 0 := hwait.free
  have hself := hfree i
  rw [Sys.put_workers_self] at hself
  rcases hw.waits hwait.state hwait.ctx hwait.queued hself with ⟨hfib, hq, htakes⟩ |
      ⟨b, st, hpc, hstill⟩
  · have hother : ∀ j, (x.workers j).pc.takes F = 0 := fun j => by
      by_cases hji : j = i
      · exact hji ▸ htakes
      · have := hfree j
        rwa [Sys.put_workers_of_ne hji] at this
    have hst : (s'.fibers F).state = .suspend := hwait.state
    have hctx : (s'.fibers F).ctx = .at (.io r (some t)) := hwait.ctx
    rw [← hfib] at hst hctx
    have hkept := h.waiting ⟨hst, hctx, hq, hother⟩
    have hcall : (x.shared.fibers F).ctx.call = some (r, some t) := by rw [hctx]; rfl
    have hex : ∀ j, (x.workers j).pc.executing ≠ some F := fun j => Pc.executing_of_takes (hother j)
    rcases hkept.worker hc (hc.ctx F r _ hcall) (hx.linked i) (hex i) (h.parked hex hcall)
        (hkept.registered.not_deleted hg) hw with hkept' | ⟨-, hpos⟩
    · exact hkept'
    · have hzero : s'.queued F = 0 := hwait.queued
      omega
  · have hkept := h.leaving hcrash (r := r) (t := t) ⟨⟨b, hpc⟩, rfl⟩ rfl
    exact hkept.put hstill (hpc ▸ rfl) (hpc ▸ rfl)

theorem Timely.worker (h : Timely x) (hc : Calls R x) (hx : Owned x)
    (hu : WakesUnheld S x (.worker i ch)) (hg : TimesOutRegistered S x (.worker i ch))
    (hcrash : x.shared.crashed = none) (hw : WorkerStep S i x.shared (x.workers i) s' w') :
    Timely (x.put i s' w') where
  alive hin := h.alive_worker hc hx hw hin
  parked hex hctx := h.parked_worker hc hw hex hctx
  unmarked hin hreg := h.unmarked_worker hc hx hg hw hin hreg
  armed hin hreg := h.armed_worker hc hx hg hw hin hreg
  leaving hcrash' _ _ _ _ _ hin hleave := h.leaving_worker hc hx hu hg hw hcrash hcrash' hin hleave
  waiting hwait := h.waiting_worker hc hx hg hw hcrash hwait

/-! ### Whole runs -/

/-- What a step of another thread does to calls and waiting fibers. -/
structure Outside (s s' : Shared κ N) : Prop where
  infos : s'.infos = s.infos
  fds : s'.fds = s.fds
  crashed : s'.crashed = s.crashed
  armed : ∀ t g, s.timers.Armed t g → s'.timers.Armed t g
  callees : s.callees ⊆ s'.callees
  queued : ∀ F, s.queued F ≤ s'.queued F
  fibers : ∀ F r t, (s'.fibers F).ctx.call = some (r, t) → s'.fibers F = s.fibers F

lemma Outside.pending (h : Outside x.shared x'.shared) (hw : x'.workers = x.workers)
    (hp : x.Pending r t) : x'.Pending r t := by
  rcases hp with harmed | hmem | ⟨i, hi⟩
  · exact .inl (h.armed _ _ harmed)
  · exact .inr (.inl (h.callees hmem))
  · exact .inr (.inr ⟨i, by rwa [hw]⟩)

lemma Outside.kept (h : Outside x.shared x'.shared) (hw : x'.workers = x.workers)
    (hk : x.Kept F r t) : x'.Kept F r t := by
  refine ⟨hk.registered.congr h.fds, ?_⟩
  rcases hk.timeout with ⟨hcan, hpend⟩ | ⟨i, hi⟩
  · exact .inl ⟨by rwa [h.infos], h.pending hw hpend⟩
  · exact .inr ⟨i, by rwa [hw]⟩

theorem Timely.shared (h : Timely x) (hw : x'.workers = x.workers)
    (ho : Outside x.shared x'.shared) : Timely x' := by
  have hin : ∀ {i f c r t}, InCall x' i f c r t → InCall x i f c r t := fun ⟨hpc, hcall⟩ =>
    ⟨hw ▸ hpc, hcall⟩
  refine ⟨fun hi => ?_, fun hex hctx => ?_, fun hi hreg => ?_, fun hi hreg => ?_,
    fun hcrash _ _ _ _ _ hi hleave => ?_, fun {F r t} hwait => ?_⟩
  · rw [ho.infos]
    exact h.alive (hin hi)
  · rw [ho.infos]
    exact h.parked (hw ▸ hex) (ho.fibers _ _ _ hctx ▸ hctx)
  · rw [ho.infos]
    exact h.unmarked (hin hi) hreg
  · exact ho.pending hw (h.armed (hin hi) hreg)
  · exact ho.kept hw (h.leaving (ho.crashed ▸ hcrash) (hin hi) hleave)
  · have hfib := ho.fibers F r (some t) (by rw [hwait.ctx]; rfl)
    have hq := ho.queued F
    have hq' := hwait.queued
    exact ho.kept hw (h.waiting ⟨hfib ▸ hwait.state, hfib ▸ hwait.ctx, by omega, hw ▸ hwait.free⟩)

theorem Timely.step {a : Act κ n N} (h : Timely x) (hc : Calls R x) (hx : Owned x)
    (hu : WakesUnheld S x a) (hg : TimesOutRegistered S x a) (hcrash : x.shared.crashed = none)
    (hs : SysStep S x a x') : Timely x' := by
  cases hs with
  | worker hw => exact h.worker hc hx hu hg hcrash hw
  | schedule =>
      exact h.shared rfl ⟨rfl, rfl, rfl, fun _ _ ha => ha, Shared.callees_subset rfl,
        fun F => Shared.queued_mono (F := F) rfl, fun _ _ _ _ => rfl⟩
  | @spawn g thr =>
      refine h.shared rfl ⟨rfl, rfl, rfl, fun _ _ ha => ha, Shared.callees_subset rfl,
        fun F => Shared.queued_mono (F := F) rfl, fun F r t hcall => ?_⟩
      have hF : F ≠ x.shared.nextFiber := by
        rintro rfl
        dsimp only at hcall
        rw [Shared.fibers_spawn] at hcall
        cases hcall
      exact Shared.fibers_spawn_of_ne hF g thr
  | timerAdd hk hm =>
      refine h.shared rfl ⟨rfl, rfl, rfl, fun t g ha => ?_, fun _ hg => hg, fun _ => le_rfl,
        fun _ _ _ _ => rfl⟩
      have htimers := congrArg Prod.fst hm
      dsimp only at htimers
      rw [← htimers]
      exact TimerManager.armed_addTimer ha
  | addTimer | tickleRead | tickleWrite | stop | stopTickle | stopWrite | join | clock =>
      exact h.shared rfl ⟨rfl, rfl, rfl, fun _ _ ha => ha, fun _ hg => hg, fun _ => le_rfl,
        fun _ _ _ _ => rfl⟩

theorem Timely.of_reach
    (h : Reach (Sys.step S) (fun x a => WakesUnheld S x a ∧ TimesOutRegistered S x a) {} x) :
    Timely x := by
  refine h.inv Timely.init fun {x x' a} hr hx hg hs => ?_
  have hr' := hr.mono fun _ _ hg => hg.1
  obtain ⟨R, hc⟩ := Calls.of_reach hr'
  obtain ⟨hcrash, hstep⟩ := step_inv hs
  exact hx.step hc (Owned.of_reach hr') hg.1 hg.2 hcrash hstep

end Machine

/-! ### A callback that comes too early -/

/-- A task that reads from a socket, with a timeout of no time. -/
def reader : ℕ → Op ℕ 1
  | 0 => .io ⟨0, Nat.one_pos⟩ .read (some 0) true 1
  | _ => .ret

def reading : Setup ℕ 2 1 := .ofProg reader Nat.two_pos small_two

instance (x : Sys ℕ 2 1) (F : ℕ) (r : Io ℕ 1) (t : ℕ) : Decidable (Waits x F r t) :=
  decidable_of_iff ((x.shared.fibers F).state = .suspend ∧
      (x.shared.fibers F).ctx = .at (.io r (some t)) ∧ x.shared.queued F = 0 ∧
      ∀ i, (x.workers i).pc.takes F = 0)
    ⟨fun ⟨hst, hctx, hq, hf⟩ => ⟨hst, hctx, hq, hf⟩, fun h => ⟨h.state, h.ctx, h.queued, h.free⟩⟩

end Eva01.Runtime
