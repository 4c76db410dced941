import Eva01.Runtime.Links

/-!
`stop()` returns once there is nothing left to do (`stop_returns`).

The machine is at rest when `stop()` has been called, no task, no timer and no registered event is
left, no worker has a task, and no other thread is in a call. From there every step but a tick of
the clock is paid from a potential, which the end of `stop()` and the way of each worker to its exit
have: a worker looks for a task, finds none, goes through `idle`, sees that it should stop, and
ends. Only a wait that is interrupted by a signal brings something back. And as long as `stop()` has
not returned, there is a step to take when the clock has moved on: a worker that waits is woken
after its timeout if not before.
-/

namespace Eva01.Runtime

open Eva01.Lib.Runs
open Eva01.Scheduler (selectTask)

variable {κ : Type*} {n N : ℕ}

/-! ### A machine at rest -/

/-- A worker that has no task, and of whose reports of `epoll_wait` none is about a descriptor. -/
def Pc.rests : Pc κ N → Bool
  | .select | .popped none _ | .tickleRead none | .tickleWrite none | .dispatch none | .idleTest
  | .incIdle | .decIdle | .stopTest | .stopActive | .stopPending | .wait | .blocked _ | .exited => true
  | .expireNow evs | .expireRead _ evs | .expireWrite _ evs | .events evs | .drain evs =>
      evs.all (· == .tickle)
  | _ => false

/-- Nothing is left to do. -/
structure Shared.Empty (s : Shared κ N) : Prop where
  tasks : s.tasks = []
  timers : s.timers.timers = []
  active : s.active = 0
  pending : s.fds.pending = 0
  events : ∀ fd, (s.fds.ctx fd).events = .none
  crashed : s.crashed = none

/-- `stop()` has been called, and there is nothing left to do. -/
structure Sys.AtRest (x : Sys κ n N) : Prop where
  shared : x.shared.Empty
  workers : ∀ i, (x.workers i).pc.rests = true
  /-- `m_mutex` is held by a worker in `shouldStop()`, if at all -/
  locked : x.shared.locked = true → ∃ i, (x.workers i).pc.asksStop = true
  ext : x.ext = []
  called : x.ctl ≠ .running
  stopping : x.ctl ≠ .stopped → x.shared.autoStop = true ∧ x.shared.stopping = true
  stopped : x.ctl = .stopped → ∀ i, (x.workers i).pc = .exited

/-! ### The potential -/

/-- The steps that a worker has before it at most, apart from those that empty the pipe. -/
def Worker.effort (w : Worker κ N) : ℕ :=
  -- a worker that has not decided to end goes through `idle` once more
  let again := if w.idleDone then 0 else 12
  match w.pc with
  | .idleTest => 1 + again
  | .dispatch _ => 2 + again
  | .tickleWrite _ => 4 + again
  | .tickleRead _ => 5 + again
  | .popped _ _ => 6 + again
  | .select => 7 + again
  | .decIdle => 8 + again
  | .stopPending => 9
  | .stopActive => 10
  | .stopTest => 11
  | .incIdle => 12
  | .events evs => 9 + again + 2 * evs.length
  | .drain evs | .expireWrite _ evs => 10 + again + 2 * evs.length
  | .expireRead _ evs => 11 + again + 2 * evs.length
  | .expireNow evs => 12 + again + 2 * evs.length
  | .blocked _ => 15 + again
  | .wait => 16 + again
  | _ => 0

/-- The steps that `stop()` has before it. -/
def Control.effort : Control → ℕ
  | .tickling k => 4 * k + 2
  | .writing k => 4 * k + 5
  | .joining => 1
  | .running | .stopped => 0

def Sys.effort (x : Sys κ n N) : ℕ := x.shared.pipe + x.ctl.effort + ∑ i, (x.workers i).effort

/-- A step of the machine: everything but a tick of the clock. -/
def Act.cost : Act κ n N → ℕ
  | .clock _ => 0
  | _ => 1

/-- A wait that is interrupted is begun again. -/
def Choice.gift : Choice N → ℕ
  | .eintr => 2
  | _ => 0

def Act.gift : Act κ n N → ℕ
  | .worker _ ch => ch.gift
  | _ => 0

/-- No other thread adds work. -/
def Act.adds : Act κ n N → Bool
  | .schedule _ _ | .spawn _ _ | .addTimer _ _ _ => true
  | _ => false

section Steps

variable {S : Setup κ n N} {i : Fin n} {s s' : Shared κ N} {w w' : Worker κ N} {ch : Choice N}

/-- What one step of a worker does to a machine at rest. -/
structure Rests (s : Shared κ N) (w : Worker κ N) (s' : Shared κ N) (w' : Worker κ N) (gift : ℕ) :
    Prop where
  empty : s'.Empty
  rests : w'.pc.rests = true
  locked : s'.locked = true → w'.pc.asksStop = true ∨ s.locked = true ∧ w.pc.asksStop = false
  flags : s'.autoStop = s.autoStop ∧ s'.stopping = s.stopping
  paid : s'.pipe + w'.effort + 1 ≤ s.pipe + w.effort + gift

lemma Shared.Empty.pollable (hs : s.Empty) {t : ℕ} {evs : List (PollEvent N)}
    (h : s.pollable t evs = true) : evs.all (· == .tickle) = true ∧ evs.length ≤ 1 := by
  simp only [Shared.pollable, Bool.and_eq_true, List.all_eq_true, decide_eq_true_eq] at h
  obtain ⟨⟨hrep, hnodup⟩, -⟩ := h
  have htickle : ∀ ev ∈ evs, ev = .tickle := by
    intro ev hev
    cases ev with
    | tickle => rfl
    | io fd r =>
      have hio := hrep _ hev
      simp [Shared.reportable, hs.events fd] at hio
  refine ⟨List.all_eq_true.2 fun ev hev => by simp [htickle ev hev], ?_⟩
  have hkeys : evs.map PollEvent.key = List.replicate evs.length none :=
    List.eq_replicate_iff.2 ⟨List.length_map _, fun k hk => by
      obtain ⟨ev, hev, rfl⟩ := List.mem_map.1 hk
      rw [htickle ev hev]
      rfl⟩
  rw [hkeys] at hnodup
  exact List.nodup_replicate.1 hnodup

lemma Shared.Empty.hasTimers (hs : s.Empty) : s.timers.hasTimers = false := by
  simp [TimerManager.hasTimers, hs.timers]

lemma Shared.Empty.inactive (hs : s.Empty) (ha : s.autoStop = true) (hst : s.stopping = true) :
    s.inactive = true := by
  simp [Shared.inactive, ha, hst, hs.tasks, hs.active]

lemma Shared.Empty.congr (hs : s.Empty) (htasks : s'.tasks = s.tasks) (htimers : s'.timers = s.timers)
    (hactive : s'.active = s.active) (hfds : s'.fds = s.fds)
    (hcrashed : s'.crashed = s.crashed) : s'.Empty where
  tasks := htasks.trans hs.tasks
  timers := by rw [htimers]; exact hs.timers
  active := hactive.trans hs.active
  pending := by rw [hfds]; exact hs.pending
  events fd := by rw [hfds]; exact hs.events fd
  crashed := hcrashed.trans hs.crashed

theorem rests_of_step (hsel : S.sel = selectTask) (hs : s.Empty) (ha : s.autoStop = true)
    (hst : s.stopping = true) (hw : w.pc.rests = true)
    (h : workerStep S i s w ch = some (s', w')) : Rests s w s' w' ch.gift := by
  have hpipe : ∀ {p : ℕ}, Shared.Empty { s with pipe := p } := hs.congr rfl rfl rfl rfl rfl
  have hidle : ∀ {p : ℕ}, Shared.Empty { s with idle := p } := hs.congr rfl rfl rfl rfl rfl
  have hlock : ∀ {b : Bool}, Shared.Empty { s with locked := b } := hs.congr rfl rfl rfl rfl rfl
  obtain ⟨pc, ff, d⟩ := w
  -- a step that changes nothing but the worker, and no step of `shouldStop()`
  have hmove : ∀ {pc' : Pc κ N} {d' : Bool}, pc'.rests = true → pc.asksStop = false →
      Worker.effort ⟨pc', ff, d'⟩ + 1 ≤ Worker.effort ⟨pc, ff, d⟩ →
        Rests s ⟨pc, ff, d⟩ s ⟨pc', ff, d'⟩ ch.gift := fun hrests hasks hpaid =>
    ⟨hs, hrests, fun hl => .inr ⟨hl, hasks⟩, ⟨rfl, rfl⟩, by omega⟩
  cases pc with
  | select =>
    simp only [workerStep, selectStep, hsel, hs.tasks, selectTask] at h
    split at h
    · cases h
    · cases h
      exact hmove rfl rfl (by simp [Worker.effort])
  | popped tk need =>
    cases tk with
    | some tk => cases hw
    | none =>
      cases h
      cases need <;> exact hmove rfl rfl (by simp [Worker.effort])
  | tickleRead tk =>
    cases tk with
    | some tk => cases hw
    | none =>
      simp only [workerStep] at h
      cases h
      split
      · exact hmove rfl rfl (by simp [Worker.effort])
      · exact hmove rfl rfl (by simp [Worker.effort])
  | tickleWrite tk =>
    cases tk with
    | some tk => cases hw
    | none =>
      cases h
      exact ⟨hpipe, rfl, fun hl => .inr ⟨hl, rfl⟩, ⟨rfl, rfl⟩, by simp [Worker.effort]; omega⟩
  | dispatch tk =>
    cases tk with
    | some tk => cases hw
    | none =>
      cases h
      exact hmove rfl rfl (by simp [Worker.effort])
  | idleTest =>
    cases h
    cases d <;> exact hmove rfl rfl (by simp [Worker.effort])
  | incIdle =>
    cases h
    exact ⟨hidle, rfl, fun hl => .inr ⟨hl, rfl⟩, ⟨rfl, rfl⟩, by simp [Worker.effort]⟩
  | decIdle =>
    cases h
    exact ⟨hidle, rfl, fun hl => .inr ⟨hl, rfl⟩, ⟨rfl, rfl⟩, by simp [Worker.effort]; omega⟩
  | stopTest =>
    simp only [workerStep, idleStep, hs.hasTimers] at h
    split at h
    · cases h
    · cases h
      exact ⟨hlock, rfl, fun _ => .inl rfl, ⟨rfl, rfl⟩, by simp [Worker.effort]⟩
  | stopActive =>
    simp only [workerStep, idleStep, hs.inactive ha hst, if_true] at h
    cases h
    exact ⟨hs, rfl, fun _ => .inl rfl, ⟨rfl, rfl⟩, by simp [Worker.effort]⟩
  | stopPending =>
    simp only [workerStep, idleStep, hs.pending, if_true] at h
    cases h
    exact ⟨hlock, rfl, fun hl => (by cases hl), ⟨rfl, rfl⟩, by simp [Worker.effort]⟩
  | wait =>
    cases h
    exact hmove rfl rfl (by simp [Worker.effort])
  | blocked t =>
    cases ch with
    | eintr =>
      cases h
      exact ⟨hs, rfl, fun hl => .inr ⟨hl, rfl⟩, ⟨rfl, rfl⟩,
        by simp [Worker.effort, Choice.gift]; omega⟩
    | poll evs =>
      simp only [workerStep, idleStep] at h
      split at h
      · rename_i hpoll
        obtain ⟨htickle, hlen⟩ := hs.pollable hpoll
        cases h
        exact hmove htickle rfl (by simp [Worker.effort]; omega)
      · cases h
    | tau | value v | result r => cases h
  | expireNow evs =>
    cases h
    exact hmove hw rfl (by simp [Worker.effort])
  | expireRead now evs =>
    simp only [workerStep, idleStep, hs.hasTimers] at h
    cases h
    exact hmove hw rfl (by simp [Worker.effort])
  | expireWrite now evs =>
    cases hexp : s.timers.getExpiredFuncs S.addr now with
    | mk m gs =>
      obtain ⟨hm, rfl⟩ := TimerManager.getExpiredFuncs_nil hs.timers hexp
      simp only [workerStep, idleStep, hexp] at h
      cases h
      exact ⟨⟨hs.tasks, hm, hs.active, hs.pending, hs.events, hs.crashed⟩, hw,
        fun hl => .inr ⟨hl, rfl⟩, ⟨rfl, rfl⟩, by simp [Worker.effort]; omega⟩
  | events evs =>
    cases evs with
    | nil =>
      cases h
      exact hmove rfl rfl (by simp [Worker.effort])
    | cons ev evs =>
      cases ev with
      | tickle =>
        cases h
        exact hmove (by simpa [Pc.rests] using hw) rfl (by simp [Worker.effort]; omega)
      | io fd r => simp [Pc.rests] at hw
  | drain evs =>
    simp only [workerStep, idleStep] at h
    split at h
    · cases h
      exact hmove hw rfl (by simp [Worker.effort])
    · cases h
      exact ⟨hpipe, hw, fun hl => .inr ⟨hl, rfl⟩, ⟨rfl, rfl⟩, by simp [Worker.effort]; omega⟩
  | exited => cases h
  | _ => cases hw

end Steps

section Machine

variable {S : Setup κ n N} {x x' : Sys κ n N} {a : Act κ n N}

lemma Sys.AtRest.worker (hsel : S.sel = selectTask) (hx : x.AtRest) {i : Fin n} {ch : Choice N}
    {s' : Shared κ N} {w' : Worker κ N}
    (h : workerStep S i x.shared (x.workers i) ch = some (s', w')) :
    (x.put i s' w').AtRest ∧ (x.put i s' w').effort + 1 ≤ x.effort + ch.gift := by
  have hrun : x.ctl ≠ .stopped := by
    intro hctl
    have hexit := hx.stopped hctl i
    unfold workerStep at h
    rw [hexit] at h
    cases h
  obtain ⟨ha, hst⟩ := hx.stopping hrun
  have hr := rests_of_step hsel hx.shared ha hst (hx.workers i) h
  refine ⟨⟨hr.empty, fun j => ?_, fun hl => ?_, hx.ext, hx.called, fun _ => ?_,
    fun hctl => absurd hctl hrun⟩, ?_⟩
  · by_cases hj : j = i
    · subst hj
      rw [Sys.put_workers_self]
      exact hr.rests
    · rw [Sys.put_workers_of_ne hj]
      exact hx.workers j
  · rcases hr.locked hl with hself | ⟨hold, hnot⟩
    · exact ⟨i, by rw [Sys.put_workers_self]; exact hself⟩
    · obtain ⟨j, hj⟩ := hx.locked hold
      have hji : j ≠ i := by
        rintro rfl
        rw [hnot] at hj
        cases hj
      exact ⟨j, by rw [Sys.put_workers_of_ne hji]; exact hj⟩
  · exact ⟨hr.flags.1.trans ha, hr.flags.2.trans hst⟩
  · have hsum := x.sum_put i s' w' Worker.effort
    have hpaid := hr.paid
    have hpipe : (x.put i s' w').shared.pipe = s'.pipe := rfl
    have hctl : (x.put i s' w').ctl = x.ctl := rfl
    simp only [Sys.effort, hpipe, hctl]
    omega

/-- The clock moves to `t`. -/
def Sys.tick (x : Sys κ n N) (t : ℕ) : Sys κ n N := { x with shared := { x.shared with clock := t } }

lemma Sys.AtRest.step_tick (hx : x.AtRest) (t : ℕ) :
    (x.tick t).AtRest ∧ x.step S (.clock t) = some (x.tick t) :=
  ⟨⟨hx.shared.congr rfl rfl rfl rfl rfl, hx.workers, hx.locked, hx.ext, hx.called, hx.stopping,
    hx.stopped⟩,
    by simp [Sys.step, hx.shared.crashed, Sys.tick]⟩

lemma Sys.AtRest.isSome_step (hx : x.AtRest) {i : Fin n} {ch : Choice N} {r : Shared κ N × Worker κ N}
    (h : workerStep S i x.shared (x.workers i) ch = some r) : (x.step S (.worker i ch)).isSome := by
  simp [Sys.step, hx.shared.crashed, h]

lemma Sys.AtRest.control (hx : x.AtRest) (hrun : x.ctl ≠ .stopped) {c : Control} (hc : c ≠ .running)
    (hc' : c ≠ .stopped) (p : ℕ) :
    Sys.AtRest { x with shared := { x.shared with pipe := p }, ctl := c } :=
  ⟨hx.shared.congr rfl rfl rfl rfl rfl, hx.workers, hx.locked, hx.ext, hc,
    fun _ => hx.stopping hrun, fun h => absurd h hc'⟩

theorem Sys.AtRest.step (hsel : S.sel = selectTask) (hx : x.AtRest) (ha : a.adds = false)
    (h : x.step S a = some x') : x'.AtRest ∧ x'.effort + a.cost ≤ x.effort + a.gift := by
  unfold Sys.step at h
  rw [if_neg (by simp [hx.shared.crashed])] at h
  cases a with
  | worker i ch =>
    obtain ⟨⟨s', w'⟩, hw, rfl⟩ := Option.map_eq_some_iff.1 h
    exact hx.worker hsel hw
  | schedule | spawn | addTimer => cases ha
  | external k =>
    simp only [hx.ext, List.getElem?_nil, Option.map_none] at h
    cases h
  | stop => simp [hx.called] at h
  | stopTickle =>
    cases hctl : x.ctl with
    | tickling k =>
      have hrun : x.ctl ≠ .stopped := by simp [hctl]
      cases k with
      | zero =>
        simp only [hctl] at h
        cases h
        refine ⟨hx.control hrun (fun hc => by cases hc) (fun hc => by cases hc) _, ?_⟩
        simp [Sys.effort, Control.effort, hctl, Act.cost, Act.gift]
      | succ k =>
        simp only [hctl] at h
        cases h
        split
        · refine ⟨hx.control hrun (fun hc => by cases hc) (fun hc => by cases hc) _, ?_⟩
          simp [Sys.effort, Control.effort, hctl, Act.cost, Act.gift]
        · refine ⟨hx.control hrun (fun hc => by cases hc) (fun hc => by cases hc) _, ?_⟩
          simp [Sys.effort, Control.effort, hctl, Act.cost, Act.gift]
          omega
    | writing k =>
      have hrun : x.ctl ≠ .stopped := by simp [hctl]
      simp only [hctl] at h
      cases h
      refine ⟨hx.control hrun (fun hc => by cases hc) (fun hc => by cases hc) _, ?_⟩
      simp [Sys.effort, Control.effort, hctl, Act.cost, Act.gift]
      omega
    | running | joining | stopped =>
      simp only [hctl] at h
      cases h
  | join =>
    simp only at h
    split at h
    · rename_i hjoin
      cases h
      refine ⟨⟨hx.shared.congr rfl rfl rfl rfl rfl, hx.workers, hx.locked, hx.ext,
        fun hc => (by cases hc), fun hc => absurd rfl hc, fun _ i => ?_⟩,
        by simp [Sys.effort, Control.effort, hjoin.1, Act.cost, Act.gift]⟩
      have hexit := hjoin.2.1 i
      unfold Worker.exited at hexit
      split at hexit
      · assumption
      · cases hexit
    · cases h
  | clock t =>
    cases h
    exact ⟨(hx.step_tick (S := S) t).1, le_rfl⟩

/-- When a worker can take a step: where it waits, at the end of its timeout. -/
def Worker.wakes (w : Worker κ N) : ℕ :=
  match w.pc with
  | .blocked t => t
  | _ => 0

/-- A worker that has not ended can take a step once its timeout is over, if no other has `m_mutex`.
-/
lemma exists_step (hsel : S.sel = selectTask) {i : Fin n} {s : Shared κ N} {w : Worker κ N}
    (hs : s.Empty) (hw : w.pc.rests = true) (hne : w.pc ≠ .exited) (hclock : w.wakes ≤ s.clock)
    (hfree : w.pc.asksStop = false → s.locked = false) : ∃ ch r, workerStep S i s w ch = some r := by
  obtain ⟨pc, ff, d⟩ := w
  cases pc with
  | select =>
    refine ⟨.tau, (s, ⟨.popped none false, ff, d⟩), ?_⟩
    simp [workerStep, selectStep, hfree rfl, hsel, hs.tasks, selectTask]
  | popped tk need | tickleRead tk | tickleWrite tk | dispatch tk | idleTest | incIdle | decIdle
  | wait | expireNow evs | expireRead now evs | expireWrite now evs => exact ⟨.tau, _, rfl⟩
  | stopTest => exact ⟨.tau, _, by simp only [workerStep, idleStep, hfree rfl, hs.hasTimers]; rfl⟩
  | stopActive =>
    by_cases hin : s.inactive = true
    · exact ⟨.tau, _, by simp only [workerStep, idleStep, if_pos hin]; rfl⟩
    · exact ⟨.tau, _, by simp only [workerStep, idleStep, if_neg hin]; rfl⟩
  | stopPending => exact ⟨.tau, _, by simp only [workerStep, idleStep, if_pos hs.pending]; rfl⟩
  | blocked t =>
    have hdue : t ≤ s.clock := hclock
    have hpoll : s.pollable t [] = true := by simp [Shared.pollable, hdue]
    exact ⟨.poll [], _, by simp only [workerStep, idleStep, hpoll]; rfl⟩
  | events evs =>
    cases evs with
    | nil => exact ⟨.tau, _, rfl⟩
    | cons ev evs =>
      cases ev with
      | tickle => exact ⟨.tau, _, rfl⟩
      | io fd r => simp [Pc.rests] at hw
  | drain evs =>
    by_cases hp : s.pipe = 0
    · exact ⟨.tau, _, by simp only [workerStep, idleStep, if_pos hp]; rfl⟩
    · exact ⟨.tau, _, by simp only [workerStep, idleStep, if_neg hp]; rfl⟩
  | exited => exact absurd rfl hne
  | _ => cases hw

lemma Sys.AtRest.control_step (hx : x.AtRest) (hrun : x.ctl ≠ .stopped)
    (hall : ∀ i, (x.workers i).pc = .exited) :
    ∃ a, a.adds = false ∧ a.cost = 1 ∧ (x.step S a).isSome := by
  have hlive : x.shared.crashed = none := hx.shared.crashed
  have hexited : ∀ i, (x.workers i).exited = true := fun i => by simp [Worker.exited, hall i]
  have hfree : x.shared.locked = false := by
    by_contra hl
    obtain ⟨i, hi⟩ := hx.locked (by simpa using hl)
    rw [hall i] at hi
    cases hi
  cases hctl : x.ctl with
  | running => exact absurd hctl hx.called
  | stopped => exact absurd hctl hrun
  | joining => exact ⟨.join, rfl, rfl, by simp [Sys.step, hlive, hctl, hexited, hfree]⟩
  | writing k => exact ⟨.stopTickle, rfl, rfl, by simp [Sys.step, hlive, hctl]⟩
  | tickling k => cases k <;> exact ⟨.stopTickle, rfl, rfl, by simp [Sys.step, hlive, hctl]⟩

/-- **As long as `stop()` has not returned, there is a step** when the clock has moved on. -/
theorem Sys.AtRest.progress (hsel : S.sel = selectTask) (hx : x.AtRest) (hrun : x.ctl ≠ .stopped) :
    ∃ t a y, x.shared.clock ≤ t ∧ a.cost = 1 ∧
      run (Sys.step S) (fun _ a => !a.adds) x [.clock t, a] = some y := by
  -- both steps are allowed, and the clock can always be moved
  have htwo : ∀ {t : ℕ} {a : Act κ n N}, a.adds = false → ((x.tick t).step S a).isSome →
      ∃ y, run (Sys.step S) (fun _ a => !a.adds) x [.clock t, a] = some y := by
    intro t a ha hy
    obtain ⟨y, hy⟩ := Option.isSome_iff_exists.1 hy
    have hclock : (Act.clock t : Act κ n N).adds = false := rfl
    exact ⟨y, by simp [run, hclock, ha, (hx.step_tick t).2, hy]⟩
  by_cases hall : ∀ i, (x.workers i).pc = .exited
  · obtain ⟨a, ha, hcost, hy⟩ :=
      (hx.step_tick (S := S) x.shared.clock).1.control_step (S := S) hrun hall
    exact ⟨_, a, (htwo ha hy).imp fun y hy => ⟨le_rfl, hcost, hy⟩⟩
  · -- the worker that has `m_mutex`, or any other if none has
    obtain ⟨i, hi, hfree⟩ : ∃ i, (x.workers i).pc ≠ .exited ∧
        ((x.workers i).pc.asksStop = false → x.shared.locked = false) := by
      by_cases hl : x.shared.locked = true
      · obtain ⟨i, hi⟩ := hx.locked hl
        refine ⟨i, fun hexit => ?_, fun hno => ?_⟩
        · rw [hexit] at hi
          cases hi
        · rw [hno] at hi
          cases hi
      · obtain ⟨i, hi⟩ := not_forall.1 hall
        exact ⟨i, hi, fun _ => by simpa using hl⟩
    let t := max x.shared.clock (x.workers i).wakes
    have hx' := (hx.step_tick (S := S) t).1
    obtain ⟨ch, r, hr⟩ :=
      exists_step (i := i) hsel hx'.shared (hx.workers i) hi (le_max_right _ _) hfree
    exact ⟨t, .worker i ch, (htwo rfl (hx'.isSome_step hr)).imp fun y hy => ⟨le_max_left _ _, rfl, hy⟩⟩

/-- **`stop()` returns.** When `stop()` has been called and there is nothing left to do, every run in
which no other thread adds work has at most `x.effort` steps, and two more for each wait that was
interrupted, ticks of the clock not counted; and where it ends, `stop()` has returned and all workers
have ended, or there is a further step when the clock has moved on. -/
theorem stop_returns (hsel : S.sel = selectTask) (hx : x.AtRest) {acts : List (Act κ n N)}
    (h : run (Sys.step S) (fun _ a => !a.adds) x acts = some x') :
    (acts.map Act.cost).sum ≤ x.effort + (acts.map Act.gift).sum ∧
      ((x'.ctl = .stopped ∧ ∀ i, (x'.workers i).exited = true) ∨
        ∃ t a y, x'.shared.clock ≤ t ∧ a.cost = 1 ∧
          run (Sys.step S) (fun _ a => !a.adds) x' [.clock t, a] = some y) := by
  obtain ⟨hx', hpaid⟩ := run_potential (P := Sys.AtRest) Sys.effort Act.cost Act.gift
    (fun hy ha hs => hy.step hsel (by simpa using ha) hs) hx h
  refine ⟨by omega, ?_⟩
  by_cases hctl : x'.ctl = .stopped
  · exact .inl ⟨hctl, fun i => by simp [Worker.exited, hx'.stopped hctl i]⟩
  · exact .inr (hx'.progress hsel hctl)

end Machine

/-- One worker, and tasks that end at once. -/
def resting : Setup ℕ 1 0 := .ofProg (fun _ => .ret) Nat.one_pos small_one

/-- What happens: `stop()` writes its byte, the worker wakes and ends, and is joined. -/
def wakesAndEnds : List (Act ℕ 1 0) :=
  [.stopTickle, .stopTickle, .stopTickle, .worker ⟨0, Nat.one_pos⟩ (.poll [.tickle])] ++
    steps ⟨0, Nat.one_pos⟩ 20 ++ [.join]

theorem stop_returns_woken :
    ∃ x x' : Sys ℕ 1 0, x.AtRest ∧ (x.workers 0).pc = .blocked 3000 ∧
      run (Sys.step resting) (fun _ a => !a.adds) x wakesAndEnds = some x' ∧ x'.ctl = .stopped ∧
      (wakesAndEnds.map Act.cost).sum ≤ x.effort + (wakesAndEnds.map Act.gift).sum := by
  have h : (run (Sys.step resting) (fun _ _ => true) {} (steps 0 8 ++ [.stop])).any (fun x =>
      decide (x.shared.tasks = [] ∧ x.shared.timers.timers = [] ∧ x.shared.active = 0 ∧
        x.shared.fds.pending = 0 ∧ x.shared.locked = false ∧ x.shared.crashed = none ∧
        (∀ i, (x.workers i).pc = .blocked 3000) ∧ x.ctl = .tickling 1 ∧
        x.shared.autoStop = true ∧ x.shared.stopping = true ∧ x.ext.isEmpty = true) &&
      (run (Sys.step resting) (fun _ a => !a.adds) x wakesAndEnds).any fun x' =>
        decide (x'.ctl = .stopped)) = true := by
    decide +kernel
  obtain ⟨x, -, hx⟩ := exists_reach_of_run (G := Free) (fun _ _ _ => trivial) h
  obtain ⟨hstate, hrun⟩ := Bool.and_eq_true_iff.1 hx
  obtain ⟨htasks, htimers, hactive, hpending, hlocked, hcrashed, hpc, hctl, hauto, hstop, hext⟩ :=
    of_decide_eq_true hstate
  obtain ⟨x', hx', hstopped⟩ := (Option.any_eq_true _ _).1 hrun
  have hrest : x.AtRest := by
    refine ⟨⟨htasks, htimers, hactive, hpending, fun fd => fd.elim0, hcrashed⟩,
      fun i => by rw [hpc i]; rfl, fun hl => absurd hl (by simp [hlocked]), List.isEmpty_iff.1 hext,
      ?_, fun _ => ⟨hauto, hstop⟩, ?_⟩
    · rw [hctl]
      exact fun hc => by cases hc
    · rw [hctl]
      exact fun hc => by cases hc
  exact ⟨x, x', hrest, hpc 0, hx', of_decide_eq_true hstopped, (stop_returns rfl hrest hx').1⟩

end Eva01.Runtime
