import Eva01.Runtime.Inversion

/-!
Who has a fiber. For each fiber `F` the machine has at most one token, which is wherever the next
step of `F` can come from: in the task list, in the hands of a worker, with a worker that executes
`F` and has not arranged yet for `F` to be woken, in a timer or a callback that will wake `F`, in an
event slot, or with the worker that keeps `F` for its next function.

`token` counts these places and `holds` counts the workers and tasks that have `F` itself, as
opposed to a way to wake it. Both are sums of a part in the shared state and a part of each worker.
Here is what one step does to them (`WorkerStep.token_le`, `WorkerStep.holds_le`); nothing is made
but for a new fiber, and nothing comes into the hands of the scheduler but by a wake-up.
-/

namespace Eva01.Runtime

open Eva01.IOManager (Event Events FdContext EventContext Report Assertion Fds Target)
open Eva01.Scheduler (Selected Selects)

variable {κ : Type*} {n N : ℕ}

/-! ### The measures -/

/-- `1` for `F` itself. -/
def one (F f : ℕ) : ℕ := if f = F then 1 else 0

@[simp] lemma one_self (F : ℕ) : one F F = 1 := if_pos rfl

lemma one_of_ne {F f : ℕ} (h : f ≠ F) : one F f = 0 := if_neg h

lemma eq_of_one {F f : ℕ} (h : one F f ≠ 0) : f = F := by
  by_contra hne
  exact h (one_of_ne hne)

lemma one_le_sum {F : ℕ} {l : List ℕ} (h : F ∈ l) : 1 ≤ (l.map (one F)).sum := by
  have hmem : one F F ∈ l.map (one F) := List.mem_map_of_mem h
  have hle := List.single_le_sum (fun _ _ => Nat.zero_le _) _ hmem
  rwa [one_self] at hle

section Parts

variable (F : ℕ)

/-- The function wakes `F`. -/
def Func.wakes : Func κ N → ℕ
  | .wake f => one F f
  | _ => 0

/-- The work is `F`. -/
def Work.holds : Work κ N → ℕ
  | .fiber f => one F f
  | .func _ _ => 0

def Work.token : Work κ N → ℕ
  | .fiber f => one F f
  | .func g _ => g.wakes F

def jobHolds : Option (Job κ N) → ℕ
  | none => 0
  | some tk => tk.work.holds F

def jobToken : Option (Job κ N) → ℕ
  | none => 0
  | some tk => tk.work.token F

/-- The same for what is about to be scheduled. -/
def targetHolds {γ : Type*} : Target ℕ γ → ℕ
  | .fiber f => one F f
  | .func _ => 0

def targetToken : Target ℕ (Func κ N) → ℕ
  | .fiber f => one F f
  | .func g => g.wakes F

def Code.wakes : Code κ N → ℕ
  | .wake f => one F f
  | _ => 0

def Branch.wakes : Branch κ N → ℕ
  | .fiber => 0
  | .func g _ => g.wakes F

end Parts

/-- The fiber has arranged to be woken and is on its way to the swap. -/
def Code.registered : Code κ N → Bool
  | .yieldState st _ | .yieldSwap st _ => st = .suspend
  | .tickleRead (.suspend _) | .tickleWrite (.suspend _) => true
  | _ => false

section Workers

variable (F : ℕ)

/-- `F` as the task a worker has selected. -/
def Pc.hand : Pc κ N → ℕ
  | .popped tk _ | .tickleRead tk | .tickleWrite tk | .dispatch tk => jobHolds F tk
  | _ => 0

/-- `F` as the fiber of a worker, from `Fiber::call` to the end of the tests behind it. -/
def Pc.runs : Pc κ N → ℕ
  | .call _ f | .swapIn _ f | .exec _ f _ | .back _ f _ | .check _ f _ | .requeue _ f
  | .checkDone f _ | .retire f => one F f
  | _ => 0

/-- The token of the fiber `f` that is at `c`, and of the one it is about to wake. -/
def Code.token (f : ℕ) (c : Code κ N) : ℕ := (if c.registered then 0 else one F f) + c.wakes F

def Pc.token : Pc κ N → ℕ
  | .popped tk _ | .tickleRead tk | .tickleWrite tk | .dispatch tk => jobToken F tk
  | .call b f | .swapIn b f => one F f + b.wakes F
  | .exec _ f c => c.token F f
  | .back _ f st | .check _ f st | .checkDone f st => if st = .suspend then 0 else one F f
  | .requeue _ f | .retire f => one F f
  | .expireSched gs _ => (gs.map (Func.wakes F)).sum
  | _ => 0

/-- `F` as the fiber kept for the next function. -/
def Worker.own (w : Worker κ N) : ℕ := (w.funcFiber.map (one F)).getD 0

def Worker.holds (w : Worker κ N) : ℕ := w.pc.hand F + w.pc.runs F + w.own F

def Worker.token (w : Worker κ N) : ℕ := w.pc.token F + w.own F

/-- `F` in the task list. -/
def Shared.queued (s : Shared κ N) : ℕ := (s.tasks.map fun tk => tk.work.holds F).sum

/-- `F` as what a slot hands to the scheduler. -/
def slotHolds (x : EventContext ℕ κ) : ℕ := (x.target.toList.map (targetHolds F)).sum

/-- `F` in the slot of an event that is registered. -/
def slotToken (c : FdContext ℕ κ) (e : Event) : ℕ :=
  bif c.events.has e then slotHolds F (c.getContext e) else 0

def ctxToken (c : FdContext ℕ κ) : ℕ := slotToken F c .read + slotToken F c .write

def Shared.slots (s : Shared κ N) : ℕ := ∑ fd, ctxToken F (s.fds.ctx fd)

def Shared.token (s : Shared κ N) : ℕ :=
  (s.tasks.map fun tk => tk.work.token F).sum + s.timers.weight (Func.wakes F) + s.slots F

end Workers

namespace Sys

variable (x : Sys κ n N) (F : ℕ)

/-- The tokens of `F`. -/
def token : ℕ := x.shared.token F + ∑ i, (x.workers i).token F

/-- The tasks and workers that have `F`. -/
def holds : ℕ := x.shared.queued F + ∑ i, (x.workers i).holds F

end Sys

/-! ### Wake-ups -/

/-- The fibers that an event operation hands to the scheduler. -/
def Shared.fired (s : Shared κ N) (o : IOManager.Op N ℕ κ) : List ℕ :=
  match o.apply (s.fds.ctx o.fd) s.fds.pending with
  | .error _ => []
  | .ok out => out.targets.filterMap fun
      | .fiber f => some f
      | .func _ => none

/-- **The fibers the next step of a worker wakes up**: by a report of `epoll_wait`, by `cancelEvent`
or `cancelAll`, or by the function of a timer of `sleep`. -/
def Pc.woken (S : Setup κ n N) (s : Shared κ N) : Pc κ N → List ℕ
  | .exec _ _ (.wake f) => [f]
  | .exec _ _ c =>
      match c.eventOp S with
      | some (o, _) => s.fired o
      | none => []
  | .events (.io fd r :: _) => s.fired (.scheduleEvent fd r)
  | _ => []

lemma mem_fired {s : Shared κ N} {o : IOManager.Op N ℕ κ} {out : IOManager.Outcome ℕ κ} {F : ℕ}
    (hout : o.apply (s.fds.ctx o.fd) s.fds.pending = .ok out) (hF : .fiber F ∈ out.targets) :
    F ∈ s.fired o := by
  simp only [Shared.fired, hout]
  exact List.mem_filterMap.2 ⟨.fiber F, hF, rfl⟩

/-! ### The parts of the shared state -/

section Effects

variable {s s' : Shared κ N} {F : ℕ}

lemma sum_issue {w : Work κ N → ℕ} {v : Target ℕ (Func κ N) → ℕ}
    (hfiber : ∀ f, w (.fiber f) = v (.fiber f)) (hfunc : ∀ g T, w (.func g T) = v (.func g)) (T : ℕ)
    (ws : List (Target ℕ (Func κ N))) : ((issue T ws).map w).sum = (ws.map v).sum := by
  induction ws generalizing T with
  | nil => rfl
  | cons x xs ih => cases x <;> simp [issue, hfiber, hfunc, ih]

namespace Shared

lemma token_congr (ht : s'.tasks = s.tasks) (hm : s'.timers = s.timers) (hf : s'.fds = s.fds) :
    s'.token F = s.token F := by
  unfold token slots
  rw [ht, hm, hf]

lemma queued_congr (ht : s'.tasks = s.tasks) : s'.queued F = s.queued F := by
  unfold queued
  rw [ht]

lemma token_pipe (s : Shared κ N) (p : ℕ) : token F { s with pipe := p } = s.token F :=
  token_congr rfl rfl rfl

lemma queued_pipe (s : Shared κ N) (p : ℕ) : queued F { s with pipe := p } = s.queued F :=
  queued_congr rfl

@[simp] lemma token_setFiber (f : ℕ) (fb : Fiber κ N) : (s.setFiber f fb).token F = s.token F := rfl

@[simp] lemma queued_setFiber (f : ℕ) (fb : Fiber κ N) :
    (s.setFiber f fb).queued F = s.queued F := rfl

lemma queued_schedule (ws : List (Target ℕ (Func κ N))) (thr : ℤ) :
    (s.schedule ws thr).queued F = s.queued F + (ws.map (targetHolds F)).sum := by
  rw [← sum_issue (w := Work.holds F) (fun _ => rfl) (fun _ _ => rfl) s.nextTicket]
  simp [schedule, queued, Scheduler.scheduleRange, Function.comp_def]

lemma token_schedule (ws : List (Target ℕ (Func κ N))) (thr : ℤ) :
    (s.schedule ws thr).token F = s.token F + (ws.map (targetToken F)).sum := by
  rw [← sum_issue (w := Work.token F) (fun _ => rfl) (fun _ _ => rfl) s.nextTicket]
  have hmap : ((issue s.nextTicket ws).map fun w => (⟨w, thr⟩ : Job κ N)).map
      (fun tk => tk.work.token F) = (issue s.nextTicket ws).map (Work.token F) := by simp
  simp only [schedule, token, Scheduler.scheduleRange, slots, List.map_append, List.sum_append, hmap]
  omega

lemma queued_schedule_fiber (f : ℕ) (thr : ℤ) :
    (s.schedule [.fiber f] thr).queued F = s.queued F + one F f := queued_schedule _ _

lemma token_schedule_fiber (f : ℕ) (thr : ℤ) :
    (s.schedule [.fiber f] thr).token F = s.token F + one F f := token_schedule _ _

lemma queued_deliver (ts : List (Target ℕ κ)) :
    (s.deliver (ts.map asWork)).queued F = s.queued F + (ts.map (targetHolds F)).sum := by
  have hmap : (ts.map asWork).map (targetHolds (γ := Func κ N) F) = ts.map (targetHolds F) := by
    rw [List.map_map]
    exact List.map_congr_left fun t _ => by cases t <;> rfl
  unfold deliver
  split
  · have hnil : ts = [] := by simpa using ‹(ts.map asWork).isEmpty = true›
    simp [hnil]
  · rw [queued_schedule, hmap]

lemma token_deliver (ts : List (Target ℕ κ)) :
    (s.deliver (ts.map asWork)).token F = s.token F + (ts.map (targetHolds F)).sum := by
  have hmap : (ts.map asWork).map (targetToken (κ := κ) (N := N) F) = ts.map (targetHolds F) := by
    rw [List.map_map]
    exact List.map_congr_left fun t _ => by cases t <;> rfl
  unfold deliver
  split
  · have hnil : ts = [] := by simpa using ‹(ts.map asWork).isEmpty = true›
    simp [hnil]
  · rw [token_schedule, hmap]

lemma sum_user (gs : List κ) :
    ((gs.map fun g => (.func (.user g) : Target ℕ (Func κ N))).map (targetToken F)).sum = 0 := by
  induction gs with
  | nil => rfl
  | cons g gs ih => simpa [targetToken, Func.wakes] using ih

lemma sum_holds_user (gs : List κ) :
    ((gs.map fun g => (.func (.user g) : Target ℕ (Func κ N))).map (targetHolds F)).sum = 0 := by
  induction gs with
  | nil => rfl
  | cons g gs ih => simpa [targetHolds] using ih

lemma sum_func (gs : List (Func κ N)) :
    ((gs.map Target.func).map (targetToken F)).sum = (gs.map (Func.wakes F)).sum := by
  rw [List.map_map]
  rfl

lemma sum_holds_func (gs : List (Func κ N)) :
    ((gs.map Target.func).map (targetHolds (γ := Func κ N) F)).sum = 0 := by
  induction gs with
  | nil => rfl
  | cons g gs ih => simpa [targetHolds] using ih

lemma token_spawn (g : κ) (thr : ℤ) :
    (s.spawn g thr).token F = s.token F + one F s.nextFiber :=
  token_schedule_fiber (s := s.newFiber (.user g) s.nextTicket) s.nextFiber thr

lemma queued_spawn (g : κ) (thr : ℤ) :
    (s.spawn g thr).queued F = s.queued F + one F s.nextFiber :=
  queued_schedule_fiber (s := s.newFiber (.user g) s.nextTicket) s.nextFiber thr

lemma token_addTimer {addr : ℕ → ℕ} (hinj : Function.Injective addr) (f period deadline : ℕ)
    (use : TimerUse κ N) :
    (s.addTimer addr f period deadline use).1.token F = s.token F + (use.func f).1.wakes F := by
  have hw := TimerManager.weight_addTimer (m := s.timers) (w := Func.wakes F)
    (t := { period := period, next := deadline, func := (use.func f).1,
            recurring := (use.func f).2 }) hinj
  simp only [addTimer, token, slots] at hw ⊢
  omega

end Shared

/-! ### Slots -/

/-- Firing moves the fibers of the events from their slots to the list of targets. -/
lemma ctxToken_diff {c : FdContext ℕ κ} {m : Events} (h : ∀ e, m.has e = true → c.events.has e = true) :
    ctxToken F { c with events := c.events.diff m } + ((c.targets m).map (targetHolds F)).sum =
      ctxToken F c := by
  obtain ⟨r, w⟩ := m
  have hr : r = true → c.events.read = true := h .read
  have hw : w = true → c.events.write = true := h .write
  have htargets : ((c.targets ⟨r, w⟩).map (targetHolds F)).sum =
      (bif r then slotHolds F c.read else 0) + bif w then slotHolds F c.write else 0 := by
    cases r <;> cases w <;> simp [FdContext.targets, slotHolds]
  rw [htargets]
  simp only [ctxToken, slotToken, FdContext.getContext, Events.has, Events.diff]
  cases r <;> cases w <;> simp_all [Nat.add_comm]

lemma ctxToken_add {c : FdContext ℕ κ} {e : Event} {func : Option κ} {f : ℕ}
    (h : c.getContext e = {}) :
    ctxToken F (FdContext.setContext { c with events := c.events.add e } e
        (IOManager.slotFor func f)) =
      ctxToken F c + if func.isNone then one F f else 0 := by
  have hnew : slotHolds F (IOManager.slotFor func f) = if func.isNone then one F f else 0 := by
    cases func <;> simp [slotHolds, IOManager.slotFor, EventContext.target, targetHolds]
  have hold : slotHolds F ({} : EventContext ℕ κ) = 0 := rfl
  cases e with
  | read =>
      have hread : c.read = {} := h
      simp only [ctxToken, slotToken, FdContext.setContext, FdContext.getContext, Events.add,
        Events.has, hread, hold, hnew, cond_true, Bool.cond_self]
      omega
  | write =>
      have hwrite : c.write = {} := h
      simp only [ctxToken, slotToken, FdContext.setContext, FdContext.getContext, Events.add,
        Events.has, hwrite, hold, hnew, cond_true, Bool.cond_self]
      omega

lemma slots_put (fd : Fin N) (out : IOManager.Outcome ℕ κ) :
    Shared.slots F { s with fds := s.fds.put fd out } + ctxToken F (s.fds.ctx fd) =
      s.slots F + ctxToken F out.ctx := by
  have h := Lib.Runs.sum_changed (fun d => ctxToken F (s.fds.ctx d))
    (fun d => ctxToken F ((s.fds.put fd out).ctx d)) fd
    (fun d hd => by simp [Fds.put, Function.update_of_ne hd])
  simpa [Shared.slots, Fds.put] using h

lemma ctxToken_le_slots (fd : Fin N) : ctxToken F (s.fds.ctx fd) ≤ s.slots F :=
  Lib.Runs.le_sum (f := fun d => ctxToken F (s.fds.ctx d)) fd

lemma sum_fibers (ts : List (Target ℕ κ)) :
    ((ts.filterMap fun
      | .fiber f => some f
      | .func _ => none).map (one F)).sum = (ts.map (targetHolds F)).sum := by
  induction ts with
  | nil => rfl
  | cons t ts ih => cases t <;> simp [targetHolds, ih]

/-- The context after an operation, and the fibers it hands out of its slots. -/
lemma apply_ctxToken {o : IOManager.Op N ℕ κ} {out : IOManager.Outcome ℕ κ} (ho : o.isAdd = false)
    (hout : o.apply (s.fds.ctx o.fd) s.fds.pending = .ok out) :
    ctxToken F out.ctx + (out.targets.map (targetHolds F)).sum ≤ ctxToken F (s.fds.ctx o.fd) := by
  obtain ⟨hctx, -, htargets⟩ := IOManager.apply_taken ho hout
  have hdiff := ctxToken_diff (F := F) (c := s.fds.ctx o.fd) (m := o.taken (s.fds.ctx o.fd))
    fun e he => IOManager.taken_has he
  rw [← hctx] at hdiff
  have hle : (out.targets.map (targetHolds F)).sum ≤
      (((s.fds.ctx o.fd).targets (o.taken (s.fds.ctx o.fd))).map (targetHolds F)).sum := by
    rw [htargets]
    split <;> simp
  omega

lemma sum_fired {o : IOManager.Op N ℕ κ} {out : IOManager.Outcome ℕ κ}
    (hout : o.apply (s.fds.ctx o.fd) s.fds.pending = .ok out) :
    ((s.fired o).map (one F)).sum = (out.targets.map (targetHolds F)).sum := by
  simp only [Shared.fired, hout]
  exact sum_fibers out.targets

lemma fired_le_slots {o : IOManager.Op N ℕ κ} (ho : o.isAdd = false) :
    ((s.fired o).map (one F)).sum ≤ s.slots F := by
  cases hout : o.apply (s.fds.ctx o.fd) s.fds.pending with
  | error a => simp [Shared.fired, hout]
  | ok out =>
      have hctx := apply_ctxToken (F := F) ho hout
      have hslots := ctxToken_le_slots (s := s) (F := F) o.fd
      rw [sum_fired hout]
      omega

/-- **An event operation**, as far as the fibers in the slots go: it hands the fibers it fires to the
task list, out of their slots. -/
theorem event_effect {o : IOManager.Op N ℕ κ} (ho : o.isAdd = false) (h : s.event o = some s') :
    s'.token F ≤ s.token F ∧ s'.queued F = s.queued F + ((s.fired o).map (one F)).sum := by
  rcases s.event_cases h with ⟨a, ha, rfl⟩ | ⟨out, hout, -, rfl⟩
  · simp only [Shared.fired, ha]
    exact ⟨le_rfl, rfl⟩
  · have hctx := apply_ctxToken (F := F) ho hout
    have hput := slots_put (s := s) (F := F) o.fd out
    refine ⟨?_, ?_⟩
    · rw [Shared.token_deliver]
      simp only [Shared.token]
      omega
    · rw [Shared.queued_deliver, sum_fired hout]
      rfl

theorem addEvent_effect {f : ℕ} {a : Adding κ N} :
    ((s.addEvent f a).token F ≤ s.token F + if a.func.isNone then one F f else 0) ∧
      (s.addEvent f a).queued F = s.queued F := by
  unfold Shared.addEvent
  split
  · exact ⟨Nat.le_add_right _ _, rfl⟩
  · rename_i out hout
    obtain ⟨hslot, heq⟩ := IOManager.addEvent_ok hout
    have hctx : ctxToken F out.ctx =
        ctxToken F (s.fds.ctx a.fd) + if a.func.isNone then one F f else 0 := by
      rw [heq]
      exact ctxToken_add hslot
    have hput := slots_put (s := s) (F := F) a.fd out
    refine ⟨?_, rfl⟩
    simp only [Shared.token]
    omega

end Effects

/-! ### One step of a fiber -/

/-- `F` is a fiber made by the step. -/
def born (s s' : Shared κ N) (F : ℕ) : ℕ := if s.nextFiber ≤ F ∧ F < s'.nextFiber then 1 else 0

section Steps

variable {S : Setup κ n N} {i : Fin n} {s s' : Shared κ N} {f F : ℕ} {c c' : Code κ N}

lemma one_nextFiber (h : s'.nextFiber = s.nextFiber + 1) : one F s.nextFiber = born s s' F := by
  unfold one born
  rw [h]
  split <;> split <;> omega

/-- The points at which an event operation is made are ordinary ones, and so are those behind. -/
lemma Code.eventOp_plain {o : IOManager.Op N ℕ κ} (h : c.eventOp S = some (o, c')) :
    o.isAdd = false ∧ c.token F f = one F f ∧ c'.token F f = one F f := by
  unfold eventOp at h
  split at h
  · cases h
    exact ⟨rfl, rfl, rfl⟩
  · split at h <;> cases h <;> exact ⟨rfl, rfl, rfl⟩
  · cases h

lemma Pc.woken_event {o : IOManager.Op N ℕ κ} (h : c.eventOp S = some (o, c')) {b : Branch κ N} :
    Pc.woken S s (.exec b f c) = s.fired o := by
  cases c <;> simp_all [Pc.woken, Code.eventOp]

lemma Cont.token_code (c : Cont κ N) :
    c.code.token F f = (Code.tickleRead c).token F f ∧
      (Code.tickleWrite c).token F f = (Code.tickleRead c).token F f := by
  cases c <;> exact ⟨rfl, rfl⟩

/-- The fiber gives its token to the timer that will wake it. -/
lemma TimerUse.token_cont (use : TimerUse κ N) (t : ℕ) :
    (use.func f).1.wakes F + (Code.tickleRead (use.cont t)).token F f = one F f := by
  cases use <;> simp [func, cont, Func.wakes, Code.token, Code.registered, Code.wakes]

lemma Adding.token_code (a : Adding κ N) :
    (if a.func.isNone then one F f else 0) + a.code.token F f = one F f := by
  cases a <;> simp [func, code, Code.token, Code.registered, Code.wakes]

theorem CodeStep.token_le (h : CodeStep S s f c s' c') :
    s'.token F + c'.token F f ≤ s.token F + c.token F f + born s s' F := by
  cases h with
  | finish | branch | makeTimer | yieldReady | addEvent | io | timeoutAct | timeoutSkip | ioEintr
  | ioBlock | ioArmNone | ioArmSome | evTest | evTestFails | ioResumeNone | ioRetry | dead
  | finState | yieldState => exact Nat.le_add_right _ _
  | schedule hp hl =>
      rw [Shared.token_schedule, Shared.sum_user]
      exact Nat.le_add_right _ _
  | @spawn k g thr next hp hl =>
      have hborn : one F s.nextFiber = born s (s.spawn g thr) F := one_nextFiber rfl
      have htok : (Code.user next : Code κ N).token F f = (Code.user k : Code κ N).token F f := rfl
      rw [Shared.token_spawn, htok]
      omega
  | event hop hs =>
      obtain ⟨ho, hc, hc'⟩ := Code.eventOp_plain (F := F) (f := f) hop
      have := (event_effect (F := F) ho hs).1
      omega
  | @timerAdd period deadline t use _ changed hs =>
      have htok := Shared.token_addTimer (s := s) (F := F) S.addrInj f period deadline use
      rw [hs] at htok
      dsimp only at htok
      have hcont := use.token_cont (F := F) (f := f) t
      have hcode := (use.cont t).token_code (F := F) (f := f)
      have hself : (Code.timerAdd period deadline use).token F f = one F f := rfl
      cases changed <;> simp only [Bool.false_eq_true, if_false, if_true] <;> omega
  | @tickleSkip cont hi =>
      have hcode := cont.token_code (F := F) (f := f)
      omega
  | @tickleRead cont hi =>
      have hcode := cont.token_code (F := F) (f := f)
      omega
  | @tickleWrite cont =>
      have hcode := cont.token_code (F := F) (f := f)
      have hs : Shared.token F { s with pipe := s.pipe + 1 } = s.token F := rfl
      omega
  | @wake f' hl =>
      rw [Shared.token_schedule_fiber]
      have htok : (Code.wake f' : Code κ N).token F f = one F f + one F f' := rfl
      have htok' : (Code.finState .term : Code κ N).token F f = one F f := rfl
      omega
  | @ioEnd _ r hc =>
      have htok : c.token F f = one F f := by rcases hc with rfl | rfl <;> rfl
      have htok' : (Code.user r.next : Code κ N).token F f = one F f := rfl
      have hs : (s.endIo r.info).token F = s.token F := rfl
      omega
  | @evAdd a =>
      have heff := (addEvent_effect (s := s) (F := F) (f := f) (a := a)).1
      have hcode := a.token_code (F := F) (f := f)
      have hself : (Code.evAdd a : Code κ N).token F f = one F f := rfl
      omega
  | @ioResumeSome r t =>
      have hw := TimerManager.weight_cancel_le (m := s.timers) (w := Func.wakes F) S.addr t
      have htok : (Code.ioCheck r : Code κ N).token F f =
        (Code.ioResume r (some t) : Code κ N).token F f := rfl
      rw [htok]
      simp only [Shared.token, Shared.slots]
      omega

theorem CodeStep.queued_le (h : CodeStep S s f c s' c') (b : Branch κ N) :
    s'.queued F ≤ s.queued F + ((Pc.woken S s (.exec b f c)).map (one F)).sum + born s s' F := by
  cases h with
  | finish | branch | makeTimer | yieldReady | addEvent | io | timeoutAct | timeoutSkip | ioEintr
  | ioBlock | ioArmNone | ioArmSome | evTest | evTestFails | ioResumeNone | ioRetry | dead
  | finState | yieldState | tickleSkip | tickleRead | tickleWrite | ioResumeSome | ioEnd =>
      exact (Nat.le_add_right _ _).trans (Nat.le_add_right _ _)
  | schedule hp hl =>
      rw [Shared.queued_schedule, Shared.sum_holds_user]
      omega
  | @spawn k g thr next hp hl =>
      have hborn : one F s.nextFiber = born s (s.spawn g thr) F := one_nextFiber rfl
      rw [Shared.queued_spawn]
      omega
  | @event _ _ o _ hop hs =>
      obtain ⟨ho, -, -⟩ := Code.eventOp_plain (F := F) (f := f) hop
      have heff := (event_effect (F := F) ho hs).2
      rw [Pc.woken_event hop]
      omega
  | timerAdd hs =>
      have hq := congrArg (fun r => Shared.queued F r.1) hs
      simp only at hq
      rw [← hq]
      exact (Nat.le_add_right _ _).trans (Nat.le_add_right _ _)
  | wake hl =>
      rw [Shared.queued_schedule_fiber]
      simp [Pc.woken]
  | evAdd =>
      rw [addEvent_effect.2]
      omega

end Steps

end Eva01.Runtime
