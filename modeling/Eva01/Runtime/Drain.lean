import Eva01.Runtime.Active
import Eva01.Runtime.Once

/-!
When `stop()` returns, everything that was scheduled has been run to its end, as long as no worker
decides to stop while another has work that `m_active_threads` does not count, or over a timer that
was added after it had asked for timers (`stop_drains`).

`shouldStop` looks at the timers, the task list and `m_active_threads`, in this order. A worker has
work that shows in none of them after it has taken a task and before it is counted, after it is no
more counted and before it has put a fiber back, and while it holds the functions of expired timers.
If there is no such worker when another finds `m_active_threads` to be 0, and there are still no
timers, then nothing is left to do, and this stays so (`Idle`).

The tasks here use no descriptors: there are none.
-/

namespace Eva01.Runtime

open Eva01.IOManager (Target sizeInc sizeDec sizeInc_of_lt sizeDec_of_pos)
open Eva01.Lib.Runs

variable {κ : Type*} {n N : ℕ}

/-! ### Counted and uncounted work -/

/-- Whether a worker has work without being counted: a task it has taken, a fiber it is about to put
back, or functions of expired timers. -/
def Pc.uncounted : Pc κ N → Bool
  | .popped (some _) _ | .requeue _ _ | .expireSched _ _ => true
  | .check _ _ st => st = .ready
  | _ => false

/-! ### A task that has not ended is somewhere -/

section Alive

variable {S : Setup κ n 0} {i : Fin n} {s s' : Shared κ 0} {w w' : Worker κ 0} {F : ℕ}

/-- `F` is the fiber of a task that has not ended. -/
def Shared.Live (s : Shared κ N) (F : ℕ) : Prop :=
  (s.fibers F).state.isDone = false ∧ (s.fibers F).ticket ≠ none

lemma Shared.Live.congr {s s' : Shared κ N} (h : s'.Live F) (hf : s'.fibers F = s.fibers F) :
    s.Live F := by
  unfold Live at h ⊢
  rwa [hf] at h

lemma Shared.Live.of_setFiber {s : Shared κ N} {f : ℕ} {fb : Fiber κ N}
    (h : (s.setFiber f fb).Live F) (hst : fb.state = (s.fibers f).state)
    (ht : fb.ticket = (s.fibers f).ticket) : s.Live F := by
  by_cases hF : F = f
  · subst hF
    simpa [Shared.Live, Shared.setFiber, hst, ht] using h
  · exact h.congr (Function.update_of_ne hF _ _)

lemma Shared.Live.suspend {s : Shared κ N} {st : State} (h : s.Live F) (hs : (s.fibers F).state = st)
    (hleft : st.isDone = true ∨ Resumable (s.fibers F)) (hne : st ≠ .ready) : st = .suspend := by
  subst hs
  rcases hleft with hdone | hres
  · rw [h.1] at hdone
    cases hdone
  · exact hres.state.resolve_left hne

lemma CodeStep.running {S : Setup κ n N} {s s' : Shared κ N} {f : ℕ} {c c' : Code κ N}
    (h : CodeStep S s f c s' c') : c.state = .running := by
  cases h with
  | event hop _ => exact (Code.eventOp_proper hop).1
  | ioEnd hc => rcases hc with rfl | rfl <;> rfl
  | _ => rfl

theorem CodeStep.alive {f : ℕ} {c c' : Code κ 0} (h : CodeStep S s f c s' c')
    (hst : (s.fibers f).state = .running) (hlive : s'.Live F) :
    (s.Live F ∧ s.token F + c.token F f ≤ s'.token F + c'.token F f) ∨ 1 ≤ s'.token F := by
  cases h with
  | finish | branch | makeTimer | yieldReady | dead => exact .inl ⟨hlive, le_rfl⟩
  | schedule hp hl =>
      rw [Shared.token_schedule, Shared.sum_user]
      exact .inl ⟨hlive, le_rfl⟩
  | @spawn k g thr next hp hl =>
      rw [Shared.token_spawn]
      by_cases hF : F = s.nextFiber
      · right
        rw [hF, one_self]
        omega
      · have htok : (Code.user next : Code κ 0).token F f = (Code.user k : Code κ 0).token F f := rfl
        exact .inl ⟨hlive.congr (Function.update_of_ne hF _ _), by omega⟩
  | @timerAdd period deadline t use _ changed hs =>
      have htok := Shared.token_addTimer (s := s) (F := F) S.addrInj f period deadline use
      have hfib := congrArg (fun r => r.1.fibers F) hs
      rw [hs] at htok
      dsimp only at htok
      have hcont := use.token_cont (F := F) (f := f) t
      have hcode := (use.cont t).token_code (F := F) (f := f)
      have hself : (Code.timerAdd period deadline use).token F f = one F f := rfl
      refine .inl ⟨hlive.congr hfib.symm, ?_⟩
      cases changed <;> simp only [Bool.false_eq_true, if_false, if_true] <;> omega
  | @tickleSkip cont hi | @tickleRead cont hi =>
      have hcode := cont.token_code (F := F) (f := f)
      exact .inl ⟨hlive, by omega⟩
  | @tickleWrite cont =>
      have hcode := cont.token_code (F := F) (f := f)
      have hs : Shared.token F { s with pipe := s.pipe + 1 } = s.token F := rfl
      exact .inl ⟨hlive, by omega⟩
  | @yieldState st r =>
      refine .inl ⟨?_, le_rfl⟩
      by_cases hF : F = f
      · subst hF
        refine ⟨by rw [hst]; rfl, ?_⟩
        simpa [Shared.leave, Shared.setFiber] using hlive.2
      · exact hlive.congr (Function.update_of_ne hF _ _)
  | @finState st =>
      refine .inl ⟨?_, le_rfl⟩
      by_cases hF : F = f
      · subst hF
        refine ⟨by rw [hst]; rfl, ?_⟩
        simpa [Shared.finish, Shared.setFiber] using hlive.2
      · exact hlive.congr (Function.update_of_ne hF _ _)
  | @wake f' hl =>
      rw [Shared.token_schedule_fiber]
      have htok : (Code.wake f' : Code κ 0).token F f = one F f + one F f' := rfl
      have htok' : (Code.finState .term : Code κ 0).token F f = one F f := rfl
      exact .inl ⟨hlive, by omega⟩
  | @io k fd | @addEvent k fd | @timeoutAct i fd | @timeoutSkip i fd => exact fd.elim0
  | @event c c' o => exact o.fd.elim0
  | @ioEintr r | @ioBlock r | @ioEnd c r | @ioArmNone r | @ioArmSome r | @ioResumeNone r
  | @ioResumeSome r | @ioRetry r => exact r.fd.elim0
  | @evTest a | @evTestFails a | @evAdd a => exact a.fd.elim0

theorem WorkerStep.alive (h : WorkerStep S i s w s' w') (hl : Linked s.fibers w.pc)
    (hk : ∀ f, w.funcFiber = some f → (s.fibers f).ticket = none)
    (hall : s.timers.All fun g r => r = true → g.wakes F = 0) (hlive : s'.Live F) :
    (s.Live F ∧ s.token F + w.token F ≤ s'.token F + w'.token F) ∨
      1 ≤ s'.token F + w'.token F := by
  cases h with
  | selectNothing | selectSpins | selectFails | tickleSkip | tickleRead | tickleWrite
  | dispatchNone | dispatchFiber | callFails | back | idleEnds | idleTest | incIdle
  | decIdle | stopTimers | stopTest | stopActive | stopBusy | stopYes | stopNo | wait | eintr | poll
  | expireNow | expireNone | expireRead | eventsEnd | eventsTickle | drainEnd
  | checkFunc => exact .inl ⟨hlive, le_rfl⟩
  | drain =>
      rw [Shared.token_pipe s (s.pipe - 256)]
      exact .inl ⟨hlive.congr rfl, le_rfl⟩
  | @poppedNone ff d need => cases need <;> exact .inl ⟨hlive, le_rfl⟩
  | @poppedSome ff d need tk => cases need <;> exact .inl ⟨hlive, le_rfl⟩
  | @selectTook ff d tk rest hsel hok hlock =>
      have hs := Shared.token_took (F := F) hsel
      simp only [Worker.token_mk, Pc.token, jobToken]
      exact .inl ⟨hlive, by omega⟩
  | @dispatchDone ff d f thr hdone =>
      have hF : f ≠ F := by
        rintro rfl
        rw [hlive.1] at hdone
        cases hdone
      simp only [Worker.token_mk, Pc.token, jobToken, Work.token, one_of_ne hF]
      exact .inl ⟨hlive, by omega⟩
  | @dispatchReset d f T g thr =>
      simp only [Shared.token_setFiber, Worker.token_mk, Pc.token, jobToken, Work.token, Branch.wakes,
        Option.map_some, Option.map_none, Option.getD_some, Option.getD_none]
      by_cases hF : F = f
      · subst hF
        exact .inr (by rw [one_self]; omega)
      · exact .inl ⟨hlive.congr (Function.update_of_ne hF _ _), by omega⟩
  | @dispatchNew d T g thr =>
      have hs : (s.newFiber g T).token F = s.token F := rfl
      simp only [Worker.token_mk, Pc.token, jobToken, Work.token, Branch.wakes]
      by_cases hF : F = s.nextFiber
      · exact .inr (by rw [← hF, one_self]; omega)
      · exact .inl ⟨hlive.congr (Function.update_of_ne hF _ _), by omega⟩
  | @call ff d b f hst =>
      refine .inl ⟨?_, le_rfl⟩
      by_cases hF : F = f
      · subst hF
        refine ⟨?_, by simpa [Shared.setFiber] using hlive.2⟩
        cases b with
        | fiber => exact hl.not_done
        | func g T =>
            have hfb : s.fibers F = { ctx := .entry (some g), ticket := some T } := hl
            rw [hfb]
            rfl
      · exact hlive.congr (Function.update_of_ne hF _ _)
  | @swapIn ff d b f =>
      have hs : Shared.token F { s with trace := s.trace ++ s.began i f } = s.token F := rfl
      have htok := Linked.token_code (F := F) hl
      refine .inl ⟨hlive, ?_⟩
      simp only [Worker.token_mk, Pc.token]
      omega
  | @code ff d b f c c' s' hc =>
      simp only [Worker.token_mk, Pc.token]
      rcases hc.alive (hl.1.trans hc.running) hlive with ⟨hold, hle⟩ | hone
      · exact .inl ⟨hold, by omega⟩
      · exact .inr (by omega)
  | @yieldSwap ff d b f st r =>
      refine .inl ⟨hlive.of_setFiber rfl rfl, ?_⟩
      simp only [Shared.token_setFiber, Worker.token_mk, Pc.token, Code.token, Code.registered,
        Code.wakes, decide_eq_true_eq]
      omega
  | @finSwap ff d b f st =>
      have hne : st ≠ .suspend := not_suspend_of_done hl.2
      refine .inl ⟨hlive.of_setFiber rfl rfl, ?_⟩
      simp only [Shared.token_setFiber, Worker.token_mk, Pc.token, Code.token, Code.registered,
        Code.wakes, Bool.false_eq_true, if_false, if_neg hne]
      omega
  | @checkReady ff d b f st hst =>
      refine .inl ⟨hlive, ?_⟩
      simp only [Worker.token_mk, Pc.token]
      split <;> omega
  | @checkFiber ff d f st hst =>
      refine .inl ⟨hlive, ?_⟩
      simp only [Worker.token_mk, Pc.token]
      by_cases hF : f = F
      · subst hF
        rw [if_pos (hlive.suspend hl.1 hl.2 (hl.1 ▸ hst))]
      · rw [one_of_ne hF, ite_self]
  | @checkLeft ff d f st hst =>
      refine .inl ⟨hlive, ?_⟩
      simp only [Worker.token_mk, Pc.token]
      by_cases hF : f = F
      · subst hF
        rw [if_pos (hlive.suspend hl.1 hl.2.2 hl.2.1)]
      · rw [one_of_ne hF, ite_self]
  | @requeue ff d b f hlock =>
      rw [Shared.token_schedule_fiber]
      refine .inl ⟨hlive, ?_⟩
      simp only [Worker.token_mk, Pc.token]
      omega
  | @checkDone ff d f st hdone =>
      refine .inl ⟨hlive, ?_⟩
      simp only [Worker.token_mk, Pc.token]
      split <;> omega
  | @retire ff d f =>
      have hF : F ≠ f := by
        rintro rfl
        exact hlive.2 (by simp [Shared.setFiber])
      have hold : s.Live F := hlive.congr (Function.update_of_ne hF _ _)
      have hff := own_eq_zero hk hold.2
      simp only [Shared.token_setFiber, Worker.token_mk, Pc.token, one_of_ne (Ne.symm hF), hff]
      exact .inl ⟨hold, by omega⟩
  | @expireWrite ff d now evs m gs hexp =>
      have hs := Shared.token_expired hall hexp
      refine .inl ⟨hlive, ?_⟩
      rw [Worker.token_mk, Worker.token_mk, Pc.token_expired]
      simp only [Pc.token]
      omega
  | @expireSched ff d gs evs hlock =>
      rw [Shared.token_schedule, Shared.sum_func]
      refine .inl ⟨hlive, ?_⟩
      simp only [Worker.token_mk, Pc.token]
      omega
  | @eventsIo ff d fd => exact fd.elim0

end Alive

/-! ### Where a ticket is that has not ended -/

/-- Every ticket has ended, or is a function in no fiber yet, or is in a fiber. -/
def Placed (b : Board κ n N) : Prop :=
  ∀ T < b.nextTicket, T ∈ b.finished ∨ 0 < b.issued T ∨ ∃ F, b.ticket F = some T

section Placed

variable {b b' : Board κ n N}

lemma Placed.of_same (h : Placed b) (hn : b'.nextTicket = b.nextTicket)
    (hfin : b.finished ⊆ b'.finished) (hi : ∀ T, b'.issued T = b.issued T)
    (ht : b'.ticket = b.ticket) : Placed b' := by
  intro T hT
  rw [hn] at hT
  rcases h T hT with hF | hI | hF
  · exact .inl (hfin hF)
  · exact .inr (.inl (by rwa [hi]))
  · exact .inr (.inr (by rwa [ht]))

lemma Placed.schedule (h : Placed b) (ws : List (Target ℕ (Func κ N))) (thr : ℤ) :
    Placed { b with toLedger := b.toLedger.schedule ws thr } := by
  intro T hT
  have hi := b.issued_schedule (T := T) ws thr
  by_cases hlt : T < b.nextTicket
  · refine (h T hlt).imp_right (.imp_left fun hpos => ?_)
    omega
  · have hone : among b.nextTicket (funcs ws) T = 1 := among_of_mem (Nat.le_of_not_lt hlt) hT
    exact .inr (.inl (by omega))

theorem Placed.move {q : ℕ → Prop} (h : Placed b) (hm : Move q b b') : Placed b' := by
  have hput : ∀ {i : Fin n} {l : Ledger κ N} {st : Stage κ N}, l.nextTicket = b.nextTicket →
      l.finished = b.finished → l.tasks = b.tasks → l.ticket = b.ticket →
      (∀ T, st.issued T = (b.stage i).issued T) → Placed (b.put l i st) :=
    fun hn hfin htasks ht hst => h.of_same hn (fun T hT => hfin ▸ hT)
      (fun T => Board.issued_put_eq htasks (hst T)) ht
  cases hm with
  | still => exact h
  | schedule => exact h.schedule _ _
  | suspend => exact h.of_same rfl (fun _ hT => hT) (fun _ => rfl) rfl
  | finish => exact h.of_same rfl (fun _ hT => List.mem_append_left _ hT) (fun _ => rfl) rfl
  | @spawn f thr hf hnone =>
      intro T hT
      rcases Nat.lt_succ_iff_lt_or_eq.1 hT with hlt | rfl
      · rw [Board.issued_spawn]
        refine (h T hlt).imp_right (.imp_right fun ⟨F, hF⟩ => ⟨F, ?_⟩)
        have hne : F ≠ f := by
          rintro rfl
          rw [hnone] at hF
          cases hF
        exact (Function.update_of_ne hne _ _).trans hF
      · exact .inr (.inr ⟨f, Function.update_self _ _ _⟩)
  | @take i tk pre post hi htasks hel =>
      refine h.of_same rfl (fun _ hT => hT) (fun T => ?_) rfl
      have hsum := b.issued_put (b.toLedger.withTasks (pre ++ post)) i (.hand tk.work) T
      have htasks' : (b.toLedger.withTasks (pre ++ post)).tasks = pre ++ post := rfl
      rw [hi, htasks, htasks'] at hsum
      simp only [Stage.issued, List.map_append, List.map_cons, List.sum_append, List.sum_cons] at hsum
      omega
  | @load i g T₀ f hi hf hnone =>
      intro T hT
      have hI := b.issued_load hi f T
      by_cases hT₀ : T = T₀
      · exact .inr (.inr ⟨f, by rw [hT₀]; exact Function.update_self _ _ _⟩)
      · rw [one_of_ne (Ne.symm hT₀), Nat.add_zero] at hI
        rw [hI]
        refine (h T hT).imp_right (.imp_right fun ⟨F, hF⟩ => ⟨F, ?_⟩)
        have hne : F ≠ f := by
          rintro rfl
          rw [hnone] at hF
          cases hF
        exact (Function.update_of_ne hne _ _).trans hF
  | resume hi => exact hput rfl rfl rfl rfl fun T => by rw [hi]; rfl
  | start hi => exact hput rfl rfl rfl rfl fun T => by rw [hi]; rfl
  | leave hi => exact hput rfl rfl rfl rfl fun T => by rw [hi]; rfl
  | drop hi => exact hput rfl rfl rfl rfl fun T => by rw [hi]; rfl
  | @requeue i f hi hq =>
      have hdrop : Placed (b.put b.toLedger i .idle) := hput rfl rfl rfl rfl fun T => by rw [hi]; rfl
      exact hdrop.schedule _ _
  | @retire i f hi hf hfin =>
      intro T hT
      have hI : (b.put (b.toLedger.load f none) i .idle).issued T = b.issued T :=
        Board.issued_put_eq rfl (by rw [hi]; rfl)
      rw [hI]
      rcases h T hT with hF | hI | ⟨F, hF⟩
      · exact .inl hF
      · exact .inr (.inl hI)
      · by_cases hne : F = f
        · exact .inl (hfin T (hne ▸ hF))
        · exact .inr (.inr ⟨F, (Function.update_of_ne hne _ _).trans hF⟩)

end Placed

/-! ### Nothing left to do -/

structure Idle (x : Sys κ n N) : Prop where
  tasks : x.shared.tasks = []
  timers : x.shared.timers.timers = []
  workers : ∀ i, (x.workers i).pc.counted = 0 ∧ (x.workers i).pc.uncounted = false
  /-- `stop()` has been called -/
  ctl : x.ctl ≠ .running

section Idle

variable {S : Setup κ n 0} {i : Fin n} {s s' : Shared κ 0} {w w' : Worker κ 0}

theorem WorkerStep.idle (h : WorkerStep S i s w s' w') (hl : Linked s.fibers w.pc)
    (htasks : s.tasks = []) (htimers : s.timers.timers = [])
    (hw : w.pc.counted = 0 ∧ w.pc.uncounted = false) :
    s'.tasks = [] ∧ s'.timers.timers = [] ∧ w'.pc.counted = 0 ∧ w'.pc.uncounted = false := by
  obtain ⟨hc, hu⟩ := hw
  have hnone : ∀ {tk : Job κ 0} {rest : List (Job κ 0)},
      S.sel s.selectable i s.tasks ≠ .took tk rest := by
    intro tk rest hsel
    obtain ⟨-, -, pre, post, hcons, -⟩ := S.selects.took hsel
    rw [htasks] at hcons
    exact absurd hcons (by simp)
  cases h with
  | selectTook hsel => exact absurd hsel hnone
  | selectFails hmem =>
      rw [htasks] at hmem
      cases hmem
  | @poppedNone ff d need => cases need <;> exact ⟨htasks, htimers, rfl, rfl⟩
  | poppedSome => cases hu
  | @tickleSkip ff d tk | @tickleRead ff d tk | @tickleWrite ff d tk =>
      cases tk with
      | none => exact ⟨htasks, htimers, rfl, rfl⟩
      | some tk => cases hc
  | dispatchDone | dispatchFiber | dispatchReset | dispatchNew | callFails | call | swapIn | code
  | yieldSwap | finSwap | back => cases hc
  | requeue | expireSched => cases hu
  | checkReady hst =>
      have hready := hl.1.symm.trans hst
      simp [Pc.uncounted, hready] at hu
  | @expireWrite ff d now evs m gs hexp =>
      obtain ⟨hm, rfl⟩ := TimerManager.getExpiredFuncs_nil htimers hexp
      exact ⟨htasks, hm, rfl, rfl⟩
  | @eventsIo ff d fd => exact fd.elim0
  | _ => exact ⟨htasks, htimers, rfl, rfl⟩

/-- The worker has ended its idle fiber, or will if the pending count is 0. -/
def Worker.decided (w : Worker κ N) : Bool :=
  match w.pc with
  | .stopPending => true
  | _ => w.idleDone

/-- **A worker decides where `m_active_threads` is read.** -/
lemma WorkerStep.decided (h : WorkerStep S i s w s' w') (hd : w.decided = false)
    (hd' : w'.decided = true) : w.pc = .stopActive ∧ s.inactive = true := by
  cases h with
  | stopActive hin => exact ⟨rfl, hin⟩
  | stopYes | stopNo => cases hd
  | @poppedNone ff d need | @poppedSome ff d need =>
    cases need <;> exact absurd (hd.symm.trans hd') (by simp)
  | @expireWrite ff d now evs m gs => cases gs <;> exact absurd (hd.symm.trans hd') (by simp)
  | _ => exact absurd (hd.symm.trans hd') (by simp)

lemma WorkerStep.still (h : WorkerStep S i s w s' w') :
    s'.stopping = s.stopping ∧ s'.fds = s.fds := by
  cases h with
  | code hc =>
      cases hc with
      | @event c c' o => exact o.fd.elim0
      | @evAdd a => exact a.fd.elim0
      | timerAdd hs =>
          exact ⟨(congrArg (fun r => r.1.stopping) hs).symm, (congrArg (fun r => r.1.fds) hs).symm⟩
      | _ => exact ⟨rfl, rfl⟩
  | @eventsIo ff d fd => exact fd.elim0
  | _ => exact ⟨rfl, rfl⟩

end Idle

/-! ### The machine -/

/-- Whether a step of another thread in `addTimer` adds the timer. -/
def External.adds : External κ → Bool
  | .timerAdd _ _ _ _ => true
  | _ => false

/-- No thread other than the workers adds work after `stop()` has been called. -/
def NoWorkAfterStop (x : Sys κ n N) : Act κ n N → Prop
  | .schedule _ _ | .spawn _ _ | .addTimer _ _ _ => x.ctl = .running
  | .external k => ∀ e ∈ x.ext[k]?, e.adds = true → x.ctl = .running
  | _ => True

/-- Whether a worker is about to read `m_active_threads` in `shouldStop()`. -/
def Pc.readsActive : Pc κ N → Bool
  | .stopActive => true
  | _ => false

/-- **Nobody decides to stop while another worker has uncounted work**, or over a timer that was added
after `hasTimers()` had answered: where a worker finds `m_active_threads` to be 0, there is none. -/
def StopsCounted (x : Sys κ n N) : Act κ n N → Prop
  | .worker i _ => (x.workers i).pc.readsActive = true → x.shared.inactive = true →
      x.shared.timers.hasTimers = false ∧ ∀ j, (x.workers j).pc.uncounted = false
  | _ => True

instance (x : Sys κ n N) (a : Act κ n N) : Decidable (NoWorkAfterStop x a) :=
  match a with
  | .schedule _ _ | .spawn _ _ | .addTimer _ _ _ => inferInstanceAs (Decidable (x.ctl = .running))
  | .external k => inferInstanceAs
      (Decidable (∀ e ∈ x.ext[k]?, e.adds = true → x.ctl = .running))
  | .worker _ _ | .stop | .stopTickle | .join | .clock _ => inferInstanceAs (Decidable True)

instance (x : Sys κ n N) (a : Act κ n N) : Decidable (StopsCounted x a) :=
  match a with
  | .worker i _ => inferInstanceAs (Decidable ((x.workers i).pc.readsActive = true →
      x.shared.inactive = true →
        x.shared.timers.hasTimers = false ∧ ∀ j, (x.workers j).pc.uncounted = false))
  | .schedule _ _ | .spawn _ _ | .addTimer _ _ _ | .external _ | .stop | .stopTickle | .join
  | .clock _ => inferInstanceAs (Decidable True)

structure Draining (x : Sys κ n N) : Prop where
  active : x.shared.active = ∑ i, (x.workers i).pc.counted
  alive : ∀ F, x.shared.Live F → 1 ≤ x.token F
  pending : x.shared.fds.pending = 0
  stopping : x.shared.stopping = true → x.ctl ≠ .running
  exited : ∀ i, (x.workers i).exited = true → (x.workers i).idleDone = true
  stopped : x.ctl = .stopped → ∀ i, (x.workers i).exited = true
  /-- once a worker has decided to stop, nothing is left to do -/
  idle : ∀ i, (x.workers i).decided = true → Idle x

section Machine

variable {S : Setup κ n 0} {x x' : Sys κ n 0} {i : Fin n} {s' : Shared κ 0} {w' : Worker κ 0}

lemma Draining.init : Draining ({} : Sys κ n N) where
  active := by simp [Pc.counted]
  alive F h := absurd rfl h.2
  pending := rfl
  stopping h := by cases h
  exited i h := by cases h
  stopped h := by cases h
  idle i h := by cases h

lemma Idle.worker (h : Idle x) (hx : Owned x)
    (hw : WorkerStep S i x.shared (x.workers i) s' w') : Idle (x.put i s' w') := by
  obtain ⟨htasks, htimers, hself⟩ := hw.idle (hx.linked i) h.tasks h.timers (h.workers i)
  refine ⟨htasks, htimers, fun j => ?_, h.ctl⟩
  by_cases hj : j = i
  · subst hj
    rw [Sys.put_workers_self]
    exact hself
  · rw [Sys.put_workers_of_ne hj]
    exact h.workers j

/-- Where `m_active_threads` is 0, there are no timers and no worker has uncounted work, nothing is
left to do. -/
lemma Draining.idle_of_stop (h : Draining x) (hin : x.shared.inactive = true)
    (hno : x.shared.timers.hasTimers = false) (hu : ∀ j, (x.workers j).pc.uncounted = false) :
    Idle x := by
  simp only [TimerManager.hasTimers, Bool.not_eq_false', List.isEmpty_iff] at hno
  have htimers : x.shared.timers.timers = [] := hno
  simp only [Shared.inactive, Bool.and_eq_true, List.isEmpty_iff, beq_iff_eq] at hin
  obtain ⟨⟨⟨-, hstopping⟩, htasks⟩, hactive⟩ := hin
  refine ⟨htasks, htimers, fun j => ⟨?_, hu j⟩, h.stopping hstopping⟩
  have hle := le_sum (f := fun k => (x.workers k).pc.counted) j
  have hsum := h.active
  rw [hactive] at hsum
  omega

lemma Draining.worker (h : Draining x) (hx : Owned x)
    (hg : (x.workers i).pc.readsActive = true → x.shared.inactive = true →
      x.shared.timers.hasTimers = false ∧ ∀ j, (x.workers j).pc.uncounted = false)
    (hw : WorkerStep S i x.shared (x.workers i) s' w') : Draining (x.put i s' w') := by
  obtain ⟨hstopping, hfds⟩ := hw.still
  obtain ⟨hex, hex'⟩ := hw.ends
  have hcount := le_sum (f := fun j => (x.workers j).pc.counted) i
  have hsum := h.active
  refine ⟨?_, fun F hlive => ?_, ?_, ?_, fun j hj => ?_, fun hs j => ?_, fun j hj => ?_⟩
  · have hlt := x.sum_lt S (v := fun w => w.pc.counted) fun w => w.pc.counted_le
    have hlive : ¬ (x.workers i).TakesDone x.shared := by
      rintro ⟨f, thr, hpc, hdone⟩
      have hres := hx.resumable_hand (i := i) (F := f)
        (by simp [hpc, Pc.hand, jobHolds, Work.holds])
      rw [hres.not_done] at hdone
      cases hdone
    have hact := hw.active hlive (by omega) (by omega)
    have hchange := x.sum_put i s' w' fun w => w.pc.counted
    have hs : (x.put i s' w').shared = s' := rfl
    rw [hs]
    omega
  · have hput := x.token_put (F := F) i s' w'
    have hle := (x.put i s' w').worker_token_le F i
    have hs : (x.put i s' w').shared = s' := rfl
    rw [hs, Sys.put_workers_self] at hle
    have hkept : ∀ f, (x.workers i).funcFiber = some f → (x.shared.fibers f).ticket = none :=
      fun f hf => by rw [hx.kept i f hf]
    rcases hw.alive (hx.linked i) hkept (fun t ht u hu hr => hx.quiet t ht u hu hr F) hlive with
      ⟨hold, hge⟩ | hone
    · have := h.alive F hold
      omega
    · omega
  · have hs : (x.put i s' w').shared.fds = s'.fds := rfl
    rw [hs, hfds]
    exact h.pending
  · have hs : (x.put i s' w').shared.stopping = s'.stopping := rfl
    rw [hs, hstopping]
    exact h.stopping
  · by_cases hji : j = i
    · subst hji
      rw [Sys.put_workers_self] at hj ⊢
      exact hex' hj
    · rw [Sys.put_workers_of_ne hji] at hj ⊢
      exact h.exited j hj
  · have := h.stopped hs i
    rw [hex] at this
    cases this
  · by_cases hany : ∃ k, (x.workers k).decided = true
    · obtain ⟨k, hk⟩ := hany
      exact (h.idle k hk).worker hx hw
    · have hnone : ∀ k, (x.workers k).decided = false := fun k => by
        by_contra hk
        exact hany ⟨k, by simpa using hk⟩
      by_cases hji : j = i
      · subst hji
        rw [Sys.put_workers_self] at hj
        obtain ⟨hpc, hin⟩ := hw.decided (hnone j) hj
        obtain ⟨hno, hu⟩ := hg (by rw [hpc]; rfl) hin
        exact (h.idle_of_stop hin hno hu).worker hx hw
      · rw [Sys.put_workers_of_ne hji] at hj
        exact absurd ⟨j, hj⟩ hany

lemma Draining.shared (h : Draining x) (hw : x'.workers = x.workers)
    (ha : x'.shared.active = x.shared.active)
    (hl : ∀ F, x'.shared.Live F →
      x.shared.Live F ∧ x.shared.token F ≤ x'.shared.token F ∨ 1 ≤ x'.shared.token F)
    (hf : x'.shared.fds = x.shared.fds) (hs : x'.shared.stopping = true → x'.ctl ≠ .running)
    (hj : x'.ctl = .stopped → ∀ i, (x.workers i).exited = true) (hi : Idle x → Idle x') :
    Draining x' := by
  refine ⟨?_, fun F hF => ?_, ?_, hs, ?_, ?_, fun i hd => ?_⟩
  · rw [ha, hw]; exact h.active
  · rcases hl F hF with ⟨hold, hle⟩ | hone
    · have := h.alive F hold
      simp only [Sys.token, hw] at *
      omega
    · simp only [Sys.token]
      omega
  · rw [hf]; exact h.pending
  · rw [hw]; exact h.exited
  · rw [hw]; exact hj
  · rw [hw] at hd
    exact hi (h.idle i hd)

theorem Draining.step {a : Act κ n 0} (h : Draining x) (hx : Owned x) (hn : NoWorkAfterStop x a)
    (hc : StopsCounted x a) (hs : SysStep S x a x') : Draining x' := by
  cases hs with
  | worker hw => exact h.worker hx hc hw
  | @schedule gs thr hlock =>
      refine h.shared rfl rfl (fun F hF => .inl ⟨hF, ?_⟩) rfl h.stopping h.stopped
        fun hi => absurd hn hi.ctl
      have htok := x.shared.token_schedule (F := F) (gs.map fun g => .func (.user g)) thr
      exact (Nat.le_add_right _ _).trans_eq htok.symm
  | @spawn g thr hlock =>
      refine h.shared rfl rfl (fun F hF => ?_) rfl h.stopping h.stopped fun hi => absurd hn hi.ctl
      have htok := x.shared.token_spawn (F := F) g thr
      by_cases hnew : F = x.shared.nextFiber
      · right
        rw [← hnew, one_self] at htok
        exact (Nat.le_add_left _ _).trans_eq htok.symm
      · exact .inl ⟨hF.congr (Function.update_of_ne hnew _ _),
          (Nat.le_add_right _ _).trans_eq htok.symm⟩
  | @timerAdd k period deadline t g recurring changed m hk hm =>
      refine h.shared rfl rfl (fun F hF => .inl ⟨hF, ?_⟩) rfl h.stopping h.stopped
        fun hi => absurd (hn _ hk rfl) hi.ctl
      have hw := TimerManager.weight_addTimer (m := x.shared.timers) (w := Func.wakes F)
        (t := ⟨period, deadline, .user g, recurring⟩) S.addrInj
      rw [hm] at hw
      simp only [Shared.token, Shared.slots]
      dsimp only at hw
      omega
  | addTimer | tickleRead | tickleWrite | clock =>
      exact h.shared rfl rfl (fun F hF => .inl ⟨hF, le_rfl⟩) rfl h.stopping h.stopped
        fun hi => ⟨hi.tasks, hi.timers, hi.workers, hi.ctl⟩
  | stop hctl =>
      exact h.shared rfl rfl (fun F hF => .inl ⟨hF, le_rfl⟩) rfl (fun _ hr => by cases hr)
        (fun hs => by cases hs) fun hi => absurd hctl hi.ctl
  | @stopTickle c hctl =>
      have hne : c ≠ .running ∧ c ≠ .stopped := by
        rcases hctl with ⟨-, rfl⟩ | ⟨k, -, rfl⟩
        · simp
        · split <;> simp
      exact h.shared rfl rfl (fun F hF => .inl ⟨hF, le_rfl⟩) rfl (fun _ => hne.1)
        (fun hs => absurd hs hne.2) fun hi => ⟨hi.tasks, hi.timers, hi.workers, hne.1⟩
  | stopWrite =>
      exact h.shared rfl rfl (fun F hF => .inl ⟨hF, le_rfl⟩) rfl (fun _ hr => by cases hr)
        (fun hs => by cases hs) fun hi => ⟨hi.tasks, hi.timers, hi.workers, fun hr => by cases hr⟩
  | join hctl hall =>
      exact h.shared rfl rfl (fun F hF => .inl ⟨hF, le_rfl⟩) rfl (fun _ hr => by cases hr)
        (fun _ => hall) fun hi => ⟨hi.tasks, hi.timers, hi.workers, fun hr => by cases hr⟩

/-- **Drain on stop.** In every run in which no other thread adds work after `stop()`, nobody
decides to stop while another worker has uncounted work or over a timer added after `hasTimers()`,
and wake-ups meet fibers that no worker has: when `stop()` has returned, every ticket has ended, and
the task list, the timers and the pending count are empty. -/
theorem stop_drains
    (h : Reach (Sys.step S)
      (fun x a => WakesUnheld S x a ∧ NoWorkAfterStop x a ∧ StopsCounted x a) {} x)
    (hs : x.ctl = .stopped) :
    (∀ T < x.shared.nextTicket, T ∈ x.shared.finished) ∧ x.shared.tasks = [] ∧
      x.shared.timers.timers = [] ∧ x.shared.fds.pending = 0 := by
  have hr := h.mono fun _ _ hg => hg.1
  have hx := Owned.of_reach hr
  have hm := Marked.of_reach hr
  have hd : Draining x := h.inv Draining.init fun hr hd hg hs =>
    hd.step (Owned.of_reach (hr.mono fun _ _ hg => hg.1)) hg.2.1 hg.2.2 (step_inv hs).2
  have hp : Placed x.board := reach_board (q := fun _ _ => True) (fun _ _ hg => hg.1)
    (fun _ _ _ _ _ _ _ => trivial) (fun T hT => (by cases hT)) (fun _ _ hb hm => hb.move hm) h
  have hpc : ∀ i, (x.workers i).pc = .exited := fun i => by
    have hex := hd.stopped hs i
    unfold Worker.exited at hex
    split at hex
    · assumption
    · cases hex
  have hidle := hd.idle ⟨0, S.pos⟩ (by
    unfold Worker.decided
    rw [hpc]
    exact hd.exited _ (hd.stopped hs _))
  refine ⟨fun T hT => ?_, hidle.tasks, hidle.timers, hd.pending⟩
  rcases hp T hT with hfin | hI | ⟨F, hF⟩
  · exact hfin
  · have hzero : x.board.issued T = 0 := by
      have htasks : x.board.tasks = [] := hidle.tasks
      have hstage : ∀ i, (x.board.stage i).issued T = 0 := fun i => by
        rw [show x.board.stage i = (x.workers i).pc.stage from rfl, hpc i]
        rfl
      simp [Board.issued, htasks, hstage]
    omega
  · by_contra hT
    have hlive : x.shared.Live F := by
      refine ⟨?_, by rw [show (x.shared.fibers F).ticket = some T from hF]; simp⟩
      by_contra hdone
      exact hT (hm.finished F T (by simpa using hdone) hF)
    have hpos := hd.alive F hlive
    have hzero : x.token F = 0 := by
      have hown : ∀ i, (x.workers i).token F = 0 := fun i => by
        have hne : (x.workers i).funcFiber ≠ some F := fun hf =>
          hlive.2 (congrArg Fiber.ticket (hx.kept i F hf))
        have hfree : (x.workers i).own F = 0 := by
          unfold Worker.own
          cases hff : (x.workers i).funcFiber with
          | none => rfl
          | some f => exact one_of_ne fun hf => hne (by rw [hff, hf])
        simp only [Worker.token, hpc i, Pc.token, hfree]
      have htimers : x.shared.timers.weight (Func.wakes F) = 0 := by
        simp [TimerManager.weight, hidle.timers]
      simp [Sys.token, Shared.token, Shared.slots, hidle.tasks, htimers, hown]
    omega

end Machine

/-! ### A task behind the decision to stop -/

/-- A task that schedules another, which sleeps. -/
def nested : ℕ → Op ℕ 0
  | 0 => .schedule [1] (-1) 2
  | 1 => .sleep 1000 2
  | _ => .ret

def nesting : Setup ℕ 2 0 := .ofProg nested Nat.two_pos small_two

/-- The end of `stop()`, when no worker is idle. -/
def joins : List (Act ℕ 2 0) := [.stopTickle, .stopTickle, .stopTickle, .join]

theorem stop_drains_nested :
    ∃ x : Sys ℕ 2 0, x.ctl = .stopped ∧ x.shared.nextTicket = 3 ∧
      (∀ T < x.shared.nextTicket, T ∈ x.shared.finished) ∧ x.shared.tasks = [] ∧
      x.shared.timers.timers = [] ∧ x.shared.fds.pending = 0 := by
  have h : (run (Sys.step nesting) (fun x a => decide
      (WakesUnheld nesting x a ∧ NoWorkAfterStop x a ∧ StopsCounted x a)) {}
      (.schedule [0] (-1) :: steps 0 33 ++ [.clock 1000, .worker 0 (.poll [])] ++ steps 0 28 ++
        .stop :: steps 0 13 ++ steps 1 13 ++ joins)).any (fun x =>
        decide (x.ctl = .stopped ∧ x.shared.nextTicket = 3)) = true := by decide +kernel
  obtain ⟨x, hr, hx⟩ := exists_reach_of_run (fun _ _ => of_decide_eq_true) h
  obtain ⟨hs, hn⟩ := of_decide_eq_true hx
  exact ⟨x, hs, hn, stop_drains hr hs⟩

/-- **`stop()` returns before the work is done.** The second worker decides to stop while the first
has taken a task that is not counted yet. It can still take the task that this one schedules, which
the first worker does not see when it decides to stop in turn. That task sleeps, both workers leave,
and its timer stays. -/
theorem stopped_before_drained :
    ∃ x, Reach (Sys.step nesting) (fun x a => WakesUnheld nesting x a ∧ NoWorkAfterStop x a) {} x ∧
      x.ctl = .stopped ∧ 1 < x.shared.nextTicket ∧ 1 ∉ x.shared.finished ∧
      x.shared.timers.timers ≠ [] := by
  have h : (run (Sys.step nesting) (fun x a => decide
      (WakesUnheld nesting x a ∧ NoWorkAfterStop x a)) {}
      (.schedule [0] (-1) :: steps 0 1 ++ .stop :: steps 1 9 ++ steps 0 5 ++ steps 1 1 ++
        steps 0 20 ++ steps 1 16 ++ joins)).any (fun x =>
        decide (x.ctl = .stopped ∧ 1 < x.shared.nextTicket ∧ 1 ∉ x.shared.finished ∧
          x.shared.timers.timers ≠ [])) = true := by decide +kernel
  obtain ⟨x, hr, hx⟩ := exists_reach_of_run (fun _ _ => of_decide_eq_true) h
  exact ⟨x, hr, of_decide_eq_true hx⟩

end Eva01.Runtime
