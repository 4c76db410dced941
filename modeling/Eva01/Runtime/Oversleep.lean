import Eva01.Runtime.Wakeup
import Eva01.Timer.Calls

/-!
No worker sleeps over a timer (`no_overslept_timer`).

A worker computes its timeout from the first deadline in `m_timers`; after that, a timer may get in
front of it. The one who puts it there then reads `m_idle_threads` and writes a byte into the tickle
pipe, unless nobody is idle; and then every worker has its timeout still to compute. A timer that
recurs gets a new deadline without a byte, but from a worker, which computes its own timeout again
before it sleeps. So at any time there is a byte, or a thread that is about to write one, or a worker
that is not asleep, or one that sleeps until the first deadline at most.

The one exception is a timeout of 0: the deadline has passed when the worker computes it, and the
time the worker sleeps until is the moment of the computation, which is later than the deadline
(`overdue`).

To the machine are added the calls that other threads make on a timer, `Timer::cancel` and
`Timer::refresh`, and a record of the clock readings from which the workers computed their timeouts.
-/

namespace Eva01.Runtime

open Eva01.Lib Eva01.Lib.Runs
open Eva01.TimerManager (InOrder)

variable {κ : Type*} {n N : ℕ}

/-! ### The machine with calls on timers -/

/-- Where a call of `refresh` is. -/
inductive Refresh
  /-- The timer is out of the set, and has its new deadline; before the section of `addTimer`. -/
  | insert (t : ℕ)
  /-- `onFirstTimerChanged`: before `tickle` reads `m_idle_threads`. -/
  | tickleRead
  /-- `tickle`: before the byte is written. -/
  | tickleWrite
  deriving DecidableEq, Repr

structure Timed (κ : Type*) (n N : ℕ) where
  sys : Sys κ n N := {}
  refreshes : List Refresh := []
  /-- The clock reading that the timeout of a worker was computed from. -/
  reading : Fin n → ℕ := fun _ => 0

/-- The actions: those of the machine; calls of `cancel` and of `refresh`; the next step of a call
of `refresh`. -/
inductive TimedAct (κ : Type*) (n N : ℕ)
  | sys (a : Act κ n N)
  | cancel (t : ℕ)
  | refresh (t : ℕ)
  | next (k : ℕ)

def Sys.setTimers (x : Sys κ n N) (m : TimerManager (Func κ N)) : Sys κ n N :=
  { x with shared := { x.shared with timers := m } }

namespace Timed

/-- The readings after an action: a worker that is about to call `getNextTimeMs` makes one. -/
def readings (x : Timed κ n N) : Act κ n N → Fin n → ℕ
  | .worker i _ =>
      match (x.sys.workers i).pc with
      | .wait => Function.update x.reading i x.sys.shared.clock
      | _ => x.reading
  | _ => x.reading

/-- The next step of a call of `refresh`, which is at `r`; the other calls are at `rest`. -/
def proceed (S : Setup κ n N) (x : Timed κ n N) (r : Refresh) (rest : List Refresh) : Timed κ n N :=
  match r with
  | .insert t =>
      let (m, changed) := x.sys.shared.timers.addTimerPtr S.addr t
      { x with sys := x.sys.setTimers m
               refreshes := if changed then .tickleRead :: rest else rest }
  | .tickleRead =>
      { x with refreshes := if x.sys.shared.idle = 0 then rest else .tickleWrite :: rest }
  | .tickleWrite =>
      { x with sys := { x.sys with shared := { x.sys.shared with pipe := x.sys.shared.pipe + 1 } }
               refreshes := rest }

def step (S : Setup κ n N) (x : Timed κ n N) (a : TimedAct κ n N) : Option (Timed κ n N) :=
  match a with
  | .sys a => (x.sys.step S a).map fun y => { x with sys := y, reading := x.readings a }
  | .cancel t => some { x with sys := x.sys.setTimers (x.sys.shared.timers.cancel S.addr t) }
  | .refresh t =>
      let (m, ok) := x.sys.shared.timers.refresh S.addr t x.sys.shared.clock
      some { x with sys := x.sys.setTimers m
                    refreshes := if ok then .insert t :: x.refreshes else x.refreshes }
  | .next k => (x.refreshes[k]?).map fun r => x.proceed S r (x.refreshes.eraseIdx k)

end Timed

/-! ### Order -/

section Order

variable {S : Setup κ n N} {x x' : Sys κ n N} {a : Act κ n N}

lemma TimersStep.inOrder {addr : ℕ → ℕ} (hinj : Function.Injective addr)
    {m m' : TimerManager (Func κ N)} (h : TimersStep addr m m') (ho : InOrder addr m) :
    InOrder addr m' := by
  cases h with
  | same => exact ho
  | add f period deadline use => exact ho.addTimer hinj _
  | cancel t => exact ho.cancel t
  | expire now => exact ho.getExpiredFuncs hinj now

theorem SysStep.inOrder (h : SysStep S x a x') (ho : InOrder S.addr x.shared.timers) :
    InOrder S.addr x'.shared.timers := by
  cases h with
  | worker hw => exact hw.timers.inOrder S.addrInj ho
  | @timerAdd k period deadline t g recurring changed m _ hm =>
      have htimers := congrArg Prod.fst hm
      dsimp only at htimers
      show InOrder S.addr m
      rw [← htimers]
      exact ho.addTimer S.addrInj _
  | schedule | spawn | addTimer | tickleRead | tickleWrite | stop | stopTickle | stopWrite | join
  | clock => exact ho

end Order

/-! ### Sleeping until the first deadline -/

/-- The time `d` is not later than the deadline of any timer in the set. -/
def Covers (d : ℕ) (m : TimerManager (Func κ N)) : Prop := ∀ t ∈ m.timers, d ≤ m.nextOf t

/-- **What a worker sleeps until**: the first deadline at most, unless its timeout is 0. -/
lemma covers_waitMs {addr : ℕ → ℕ} {s : Shared κ N} (ho : InOrder addr s.timers) :
    s.clock + s.waitMs ≤ s.clock ∨ Covers (s.clock + s.waitMs) s.timers := by
  cases hhead : s.timers.timers.head? with
  | none =>
      refine .inr fun t ht => ?_
      rw [List.head?_eq_none_iff.1 hhead] at ht
      cases ht
  | some first =>
      by_cases hdue : s.clock < s.timers.nextOf first
      · refine .inr fun t ht => ?_
        have hle := ho.head_le hhead ht
        have hms : s.waitMs ≤ s.timers.nextOf first - s.clock := by
          simp only [Shared.waitMs, TimerManager.getNextTimeMs, hhead, Option.map_some, if_pos hdue]
          split <;> omega
        omega
      · left
        have hms : s.waitMs = 0 := by
          simp [Shared.waitMs, TimerManager.getNextTimeMs, hhead, hdue, epollWaitTimeoutMs]
        omega

section Covers

variable {addr : ℕ → ℕ} {m m' : TimerManager (Func κ N)} {d t : ℕ} {u : Timer (Func κ N)}

lemma Covers.cancel (h : Covers d m) (t : ℕ) : Covers d (m.cancel addr t) := fun j hj =>
  h j (OrderedSet.erase_sublist.subset hj)

lemma Covers.setNext (h : Covers d m) (ht : t ∉ m.timers) (v : ℕ) : Covers d (m.setNext t v) := by
  intro j hj
  rw [TimerManager.nextOf_setNext_of_ne (ne_of_mem_of_not_mem hj ht)]
  exact h j hj

lemma Covers.refresh (hinj : Function.Injective addr) (ho : InOrder addr m) (h : Covers d m)
    (t now : ℕ) : Covers d (m.refresh addr t now).1 := by
  unfold TimerManager.refresh
  split
  · exact (h.cancel t).setNext (ho.not_mem_cancel hinj) _
  · exact h

lemma Covers.make (h : Covers d m) (u : Timer (Func κ N)) : Covers d (m.make u) := by
  intro j hj
  have hne : j ≠ m.fresh := TimerManager.ne_fresh hj
  have hnext : (m.make u).nextOf j = m.nextOf j := by
    simp [TimerManager.nextOf, TimerManager.make, Function.update_of_ne hne]
  rw [hnext]
  exact h j hj

/-- **A timer that does not become the first** is behind one that was there. -/
lemma Covers.insert (hinj : Function.Injective addr) (ho : InOrder addr m) (h : Covers d m)
    (ht : m.obj t = some u) (hfirst : (m.insert addr t u ht).timers.head? ≠ some t) :
    Covers d (m.insert addr t u ht) := by
  have ho' := ho.insert hinj ht
  have hmem : ∀ j ∈ (m.insert addr t u ht).timers, j = t ∨ j ∈ m.timers := fun j hj =>
    OrderedSet.eq_or_mem_of_mem_insert hj
  have hnext : (m.insert addr t u ht).nextOf = m.nextOf := rfl
  intro j hj
  rcases hmem j hj with rfl | hold
  · cases hhead : (m.insert addr j u ht).timers.head? with
    | none =>
        rw [List.head?_eq_none_iff.1 hhead] at hj
        cases hj
    | some first =>
        have hne : first ≠ j := by
          rintro rfl
          exact hfirst hhead
        have hin := (hmem first (List.mem_of_head? hhead)).resolve_left hne
        have hle := ho'.head_le hhead hj
        rw [hnext] at hle ⊢
        exact (h first hin).trans hle
  · exact h j hold

lemma Covers.addTimer (hinj : Function.Injective addr) (ho : InOrder addr m) (h : Covers d m)
    (hfirst : (m.addTimer addr u).2.2 = false) : Covers d (m.addTimer addr u).1 := by
  have hobj : (m.make u).obj m.fresh = some u := Function.update_self _ _ _
  exact (h.make u).insert hinj (ho.make u) hobj (by simpa [TimerManager.addTimer] using hfirst)

lemma Covers.addTimerPtr (hinj : Function.Injective addr) (ho : InOrder addr m) (h : Covers d m)
    (hfirst : (m.addTimerPtr addr t).2 = false) : Covers d (m.addTimerPtr addr t).1 := by
  cases hu : m.obj t with
  | none => rwa [TimerManager.addTimerPtr_of_none hu]
  | some u =>
      rw [TimerManager.addTimerPtr_of_some hu] at hfirst ⊢
      exact h.insert hinj ho hu (by simpa using hfirst)

end Covers

/-! ### Somebody attends to the timers -/

/-- The worker is not asleep, or sleeps until the first deadline at most, or has a timeout of 0. -/
def Timed.Attends (x : Timed κ n N) (i : Fin n) : Prop :=
  (x.sys.workers i).pc.isBlocked = false ∨
    ∃ d, (x.sys.workers i).pc = .blocked d ∧ (d ≤ x.reading i ∨ Covers d x.sys.shared.timers)

/-- A thread that is no worker is in `onFirstTimerChanged`. -/
def Timed.Tickling (x : Timed κ n N) : Prop :=
  (.tickleRead ∈ x.sys.ext ∨ .tickleWrite ∈ x.sys.ext) ∨
    .tickleRead ∈ x.refreshes ∨ .tickleWrite ∈ x.refreshes

/-- There is a byte in the pipe, or one on its way, or a worker that attends to the timers. -/
def Timed.Alert (x : Timed κ n N) : Prop :=
  0 < x.sys.shared.pipe ∨ x.Tickling ∨ ∃ i, x.Attends i

structure Attended (S : Setup κ n N) (x : Timed κ n N) : Prop where
  idle : x.sys.shared.idle = ∑ i, (x.sys.workers i).pc.idles
  order : InOrder S.addr x.sys.shared.timers
  alert : x.Alert

section Step

variable {S : Setup κ n N} {x x' : Timed κ n N}

theorem WorkerStep.blocks {i : Fin n} {s s' : Shared κ N} {w w' : Worker κ N} {d : ℕ}
    (h : WorkerStep S i s w s' w') (hd : w'.pc = .blocked d) :
    w.pc = .wait ∧ s' = s ∧ d = s.clock + s.waitMs := by
  cases h with
  | wait =>
      cases hd
      exact ⟨rfl, rfl, rfl⟩
  | @poppedNone ff d need | @poppedSome ff d need => cases need <;> cases hd
  | @expireWrite ff d now evs m gs hexp => cases gs <;> cases hd
  | _ => cases hd

lemma Timed.Alert.congr (h : x.Alert) (hw : x'.sys.workers = x.sys.workers)
    (hr : x'.reading = x.reading) (hpipe : x.sys.shared.pipe ≤ x'.sys.shared.pipe)
    (htick : x.Tickling → x'.Alert)
    (hcov : ∀ d, Covers d x.sys.shared.timers → Covers d x'.sys.shared.timers) : x'.Alert := by
  rcases h with hpos | hx | ⟨i, hi⟩
  · exact .inl (hpos.trans_le hpipe)
  · exact htick hx
  · refine .inr (.inr ⟨i, ?_⟩)
    unfold Timed.Attends at hi ⊢
    rw [hw, hr]
    exact hi.imp_right fun ⟨d, hd, hor⟩ => ⟨d, hd, hor.imp_right (hcov d)⟩

/-- **If nobody is idle, nobody sleeps.** -/
lemma Timed.alert_of_idle (hidle : x.sys.shared.idle = ∑ i, (x.sys.workers i).pc.idles)
    (hzero : x.sys.shared.idle = 0) (hpos : 0 < n) : x.Alert := by
  refine .inr (.inr ⟨⟨0, hpos⟩, .inl ?_⟩)
  have hle := le_sum (f := fun j => (x.sys.workers j).pc.idles) ⟨0, hpos⟩
  have hfirst : (x.sys.workers ⟨0, hpos⟩).pc.idles = 0 := by omega
  cases hpc : (x.sys.workers ⟨0, hpos⟩).pc with
  | blocked d =>
      rw [hpc] at hfirst
      cases hfirst
  | _ => rfl

/-- A step of a worker: behind it, that worker attends to the timers. -/
lemma Attended.worker {i : Fin n} {ch : Choice N} {s' : Shared κ N} {w' : Worker κ N}
    (h : Attended S x) (hw : WorkerStep S i x.sys.shared (x.sys.workers i) s' w') :
    Attended S { x with sys := x.sys.put i s' w', reading := x.readings (.worker i ch) } := by
  refine ⟨idle_put h.idle hw, hw.timers.inOrder S.addrInj h.order, .inr (.inr ⟨i, ?_⟩)⟩
  have hself : (x.sys.put i s' w').workers i = w' := Sys.put_workers_self i s' w'
  unfold Timed.Attends
  rw [hself]
  cases hpc : w'.pc with
  | blocked d =>
      obtain ⟨hwait, rfl, rfl⟩ := hw.blocks hpc
      have hreading : x.readings (.worker i ch) i = x.sys.shared.clock := by
        simp [Timed.readings, hwait]
      exact .inr ⟨_, rfl, (covers_waitMs h.order).imp_left fun hle => hle.trans_eq hreading.symm⟩
  | _ => exact .inl rfl

lemma Attended.sys {a : Act κ n N} {y : Sys κ n N} (h : Attended S x) (hs : SysStep S x.sys a y) :
    Attended S { x with sys := y, reading := x.readings a } := by
  have ho := hs.inOrder h.order
  cases hs with
  | worker hw => exact h.worker hw
  | schedule | spawn =>
      refine ⟨h.idle, ho, h.alert.congr rfl rfl ?_ (fun ht => .inr (.inl ht)) fun _ hd => hd⟩
      simp only [Shared.spawn, Shared.schedule]
      split <;> simp [Shared.newFiber, Shared.setFiber]
  | addTimer =>
      refine ⟨h.idle, ho, h.alert.congr rfl rfl le_rfl (fun ht => .inr (.inl ?_)) fun _ hd => hd⟩
      exact ht.imp_left (Or.imp (List.mem_cons_of_mem _) (List.mem_cons_of_mem _))
  | @timerAdd k period deadline t g recurring changed m hk hm =>
      refine ⟨h.idle, ho, ?_⟩
      have htimers := congrArg Prod.fst hm
      have hfirst := congrArg (fun r => r.2.2) hm
      dsimp only at htimers hfirst
      cases changed with
      | true => exact .inr (.inl (.inl (.inl List.mem_cons_self)))
      | false =>
          refine h.alert.congr rfl rfl le_rfl (fun ht => .inr (.inl (ht.imp_left ?_))) fun d hd => ?_
          · exact Or.imp (mem_eraseIdx hk (by simp)).2 (mem_eraseIdx hk (by simp)).2
          · show Covers d m
            rw [← htimers]
            exact hd.addTimer S.addrInj h.order hfirst
  | @tickleRead k hk =>
      refine ⟨h.idle, ho, ?_⟩
      by_cases hzero : x.sys.shared.idle = 0
      · exact Timed.alert_of_idle h.idle hzero S.pos
      · exact .inr (.inl (.inl (.inr (by simp [hzero]))))
  | @tickleWrite k hk => exact ⟨h.idle, ho, .inl (Nat.succ_pos _)⟩
  | stop | stopTickle | join | clock =>
      exact ⟨h.idle, ho, h.alert.congr rfl rfl le_rfl (fun ht => .inr (.inl ht)) fun _ hd => hd⟩
  | stopWrite =>
      exact ⟨h.idle, ho, h.alert.congr rfl rfl (Nat.le_succ _) (fun ht => .inr (.inl ht))
        fun _ hd => hd⟩

lemma Attended.proceed {k : ℕ} {r : Refresh} (h : Attended S x) (hk : x.refreshes[k]? = some r) :
    Attended S (x.proceed S r (x.refreshes.eraseIdx k)) := by
  cases r with
  | insert t =>
      refine ⟨h.idle, h.order.addTimerPtr S.addrInj t, ?_⟩
      cases hfirst : (x.sys.shared.timers.addTimerPtr S.addr t).2 with
      | true => exact .inr (.inl (.inr (.inl (by simp [Timed.proceed, hfirst]))))
      | false =>
          refine h.alert.congr rfl rfl le_rfl (fun ht => .inr (.inl (ht.imp_right ?_))) fun d hd => ?_
          · simp only [Timed.proceed, hfirst, Bool.false_eq_true, if_false]
            exact Or.imp (mem_eraseIdx hk (by simp)).2 (mem_eraseIdx hk (by simp)).2
          · exact hd.addTimerPtr S.addrInj h.order hfirst
  | tickleRead =>
      refine ⟨h.idle, h.order, ?_⟩
      by_cases hzero : x.sys.shared.idle = 0
      · exact Timed.alert_of_idle h.idle hzero S.pos
      · exact .inr (.inl (.inr (.inr (by simp [Timed.proceed, hzero]))))
  | tickleWrite => exact ⟨h.idle, h.order, .inl (Nat.succ_pos _)⟩

theorem Attended.step {a : TimedAct κ n N} (h : Attended S x) (hs : x.step S a = some x') :
    Attended S x' := by
  cases a with
  | sys a =>
      obtain ⟨y, hy, rfl⟩ := Option.map_eq_some_iff.1 hs
      exact h.sys (step_inv hy).2
  | cancel t =>
      cases hs
      exact ⟨h.idle, h.order.cancel t, h.alert.congr rfl rfl le_rfl (fun ht => .inr (.inl ht))
        fun d hd => hd.cancel t⟩
  | refresh t =>
      cases hs
      refine ⟨h.idle, ?_, h.alert.congr rfl rfl le_rfl (fun ht => .inr (.inl ?_)) fun d hd => ?_⟩
      · exact h.order.refresh S.addrInj t _
      · refine ht.imp_right ?_
        dsimp only
        split
        · exact Or.imp (List.mem_cons_of_mem _) (List.mem_cons_of_mem _)
        · exact id
      · exact hd.refresh S.addrInj h.order t _
  | next k =>
      obtain ⟨r, hr, rfl⟩ := Option.map_eq_some_iff.1 hs
      exact h.proceed hr

lemma attended_start (S : Setup κ n N) : Attended S {} where
  idle := by simp [Pc.idles]
  order := List.Pairwise.nil
  alert := .inr (.inr ⟨⟨0, S.pos⟩, .inl rfl⟩)

/-- **No overslept timer.** For any number of workers, and any calls of other threads, there is no
state with a timer in the set, all workers in `epoll_wait`, no byte in the pipe and no call of
`addTimer` or `refresh` under way, in which every worker has a timeout above 0 and sleeps until later
than the first deadline. -/
theorem no_overslept_timer (h : Reach (Timed.step S) Free {} x) :
    ¬ (x.sys.shared.timers.timers ≠ [] ∧ x.sys.shared.pipe = 0 ∧ x.sys.ext = [] ∧
        x.refreshes = [] ∧
        ∀ i, ∃ d, (x.sys.workers i).pc = .blocked d ∧ x.reading i < d ∧
          ∃ t ∈ x.sys.shared.timers.timers, x.sys.shared.timers.nextOf t < d) := by
  rintro ⟨-, hpipe, hext, hrefreshes, hall⟩
  have hx : Attended S x := h.inv (attended_start S) fun _ hx _ hs => hx.step hs
  rcases hx.alert with hpos | htick | ⟨i, hi⟩
  · omega
  · simp [Timed.Tickling, hext, hrefreshes] at htick
  · obtain ⟨d, hd, hreading, t, ht, hlt⟩ := hall i
    rcases hi with hi | ⟨d', hd', hor⟩
    · rw [hd] at hi
      cases hi
    · obtain rfl : d = d' := by simpa [hd] using hd'
      rcases hor with hle | hcov
      · omega
      · have := hcov t ht
        omega

end Step

/-! ### Runs of one worker -/

/-- One worker, and tasks that just end. -/
def lone : Setup ℕ 1 0 := .ofProg (fun _ => .ret) Nat.one_pos small_one

/-- A timer of 5 ms is added at 0, and the worker goes as far as `getNextTimeMs`. -/
def beforeWait : List (TimedAct ℕ 1 0) :=
  (Act.addTimer 5 0 false :: Act.external 0 :: Act.external 0 :: steps ⟨0, Nat.one_pos⟩ 6).map .sys

theorem no_overslept_timer_lone :
    ∃ x : Timed ℕ 1 0, x.sys.shared.timers.timers = [0] ∧ x.sys.shared.pipe = 0 ∧
      (x.sys.workers 0).pc = .blocked 5 ∧ 5 ≤ x.sys.shared.timers.nextOf 0 := by
  have h : (run (Timed.step lone) (fun _ _ => true) {}
      (beforeWait ++ [.sys (.worker 0 .tau)])).any (fun x => decide
        (x.sys.shared.timers.timers = [0] ∧ x.sys.shared.pipe = 0 ∧ x.sys.ext = [] ∧
          x.refreshes = [] ∧ (x.sys.workers 0).pc = .blocked 5 ∧ x.reading 0 = 0)) = true := by
    decide +kernel
  obtain ⟨x, hr, hx⟩ := exists_reach_of_run (G := Free) (fun _ _ _ => trivial) h
  obtain ⟨htimers, hpipe, hext, hrefreshes, hpc, hreading⟩ := of_decide_eq_true hx
  refine ⟨x, htimers, hpipe, hpc, Nat.le_of_not_lt fun hlt => ?_⟩
  refine no_overslept_timer hr ⟨by simp [htimers], hpipe, hext, hrefreshes, fun i => ⟨5, ?_⟩⟩
  obtain rfl : i = 0 := Subsingleton.elim _ _
  exact ⟨hpc, by omega, 0, by simp [htimers], hlt⟩

/-- The clock does not go back. -/
def Forward (x : Timed κ n N) : TimedAct κ n N → Prop
  | .sys (.clock t) => x.sys.shared.clock ≤ t
  | _ => True

instance (x : Timed κ n N) (a : TimedAct κ n N) : Decidable (Forward x a) :=
  match a with
  | .sys (.clock t) => inferInstanceAs (Decidable (x.sys.shared.clock ≤ t))
  | .sys (.worker _ _) | .sys (.schedule _ _) | .sys (.spawn _ _) | .sys (.addTimer _ _ _)
  | .sys (.external _) | .sys .stop | .sys .stopTickle | .sys .join | .cancel _ | .refresh _
  | .next _ => inferInstanceAs (Decidable True)

/-- **An overdue timer.** The clock goes on to 10 before the worker computes its timeout. The worker
blocks with a timeout of 0, and what it sleeps until, the reading 10, is later than the deadline 5 of
the only timer. -/
theorem overdue :
    ∃ x, Reach (Timed.step lone) Forward {} x ∧ x.sys.shared.timers.timers = [0] ∧
      x.sys.shared.timers.nextOf 0 = 5 ∧ x.sys.shared.pipe = 0 ∧ x.sys.ext = [] ∧
      x.refreshes = [] ∧ ∀ i, (x.sys.workers i).pc = .blocked 10 ∧ x.reading i = 10 := by
  have h : (run (Timed.step lone) (fun x a => decide (Forward x a)) {}
      (beforeWait ++ [.sys (.clock 10), .sys (.worker 0 .tau)])).any (fun x => decide
        (x.sys.shared.timers.timers = [0] ∧ x.sys.shared.timers.nextOf 0 = 5 ∧
          x.sys.shared.pipe = 0 ∧ x.sys.ext = [] ∧ x.refreshes = [] ∧
          ∀ i, (x.sys.workers i).pc = .blocked 10 ∧ x.reading i = 10)) = true := by
    decide +kernel
  obtain ⟨x, hr, hx⟩ := exists_reach_of_run (fun _ _ => of_decide_eq_true) h
  exact ⟨x, hr, of_decide_eq_true hx⟩

end Eva01.Runtime
