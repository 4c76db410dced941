import Eva01.Runtime.Links

/-!
A fiber is executed by one worker at a time, as long as it is only woken once no worker has it any
more (`one_worker_per_fiber`).

The fiber registers itself, with a timer or an event slot, before it has left: `addTimer` and
`addEvent` come before `Fiber::Yield`, whose parts are steps of their own, and the worker that ran
the fiber looks at it once more when it is back. A wake-up in between puts the fiber into the task
list while it still belongs to a worker. `WakesUnheld` excludes this, and nothing else.

Under that condition each fiber has at most one token and one holder (`Owned`).
-/

namespace Eva01.Runtime

open Eva01.IOManager (Event Events Report Assertion Fds Target sizeInc sizeDec)
open Eva01.Scheduler (Selected Selects)
open Eva01.Lib.Runs

variable {κ : Type*} {n N : ℕ}

/-! ### The invariant -/

/-- **Wake-ups meet fibers that no worker has**: a step that wakes a fiber, by a report, a cancelled
event or the timer of a sleep, is only taken when no worker is between its `Fiber::call` on that
fiber and the end of the tests behind it. -/
def WakesUnheld (S : Setup κ n N) (x : Sys κ n N) : Act κ n N → Prop
  | .worker i _ => ∀ F ∈ (x.workers i).pc.woken S x.shared, ∀ j, (x.workers j).pc.runs F = 0
  | _ => True

instance (S : Setup κ n N) (x : Sys κ n N) (a : Act κ n N) : Decidable (WakesUnheld S x a) :=
  match a with
  | .worker i _ => inferInstanceAs
      (Decidable (∀ F ∈ (x.workers i).pc.woken S x.shared, ∀ j, (x.workers j).pc.runs F = 0))
  | .schedule _ _ | .spawn _ _ | .addTimer _ _ _ | .external _ | .stop | .stopTickle | .join
  | .clock _ => inferInstanceAs (Decidable True)

/-- No worker is between `Fiber::call` on `F` and the tests behind it. -/
def Unheld (x : Sys κ n N) (F : ℕ) : Prop := ∀ i, (x.workers i).pc.runs F = 0

structure Owned (x : Sys κ n N) : Prop where
  /-- a fiber has one token -/
  token : ∀ F, x.token F ≤ 1
  /-- and is in one place -/
  holds : ∀ F, x.holds F ≤ 1
  /-- fibers not made yet are nowhere -/
  fresh : ∀ F, x.shared.nextFiber ≤ F → x.token F = 0 ∧ x.holds F = 0
  linked : ∀ i, Linked x.shared.fibers (x.workers i).pc
  /-- a fiber kept for the next function has been reset -/
  kept : ∀ i F, (x.workers i).funcFiber = some F → x.shared.fibers F = {}
  unheld : ∀ F, Unheld x F → (x.shared.fibers F).state ≠ .running
  /-- a fiber with a token that neither runs nor is kept can be resumed -/
  parked : ∀ F, Unheld x F → (∀ i, (x.workers i).funcFiber ≠ some F) → 0 < x.token F →
    Resumable (x.shared.fibers F)
  quiet : Quiet x.shared.timers

section Invariant

variable {S : Setup κ n N} {x x' : Sys κ n N} {F : ℕ}

lemma Owned.init : Owned ({} : Sys κ n N) where
  token F := by simp [Sys.token, Shared.token, Shared.slots, TimerManager.weight, Worker.token,
    Pc.token, Worker.own, ctxToken, slotToken, Events.has]
  holds F := by simp [Sys.holds, Shared.queued, Worker.holds, Pc.hand, Pc.runs, Worker.own]
  fresh F _ := by simp [Sys.token, Shared.token, Shared.slots, TimerManager.weight, Worker.token,
    Pc.token, Worker.own, ctxToken, slotToken, Events.has, Sys.holds, Shared.queued, Worker.holds,
    Pc.hand, Pc.runs]
  linked i := trivial
  kept i F h := by cases h
  unheld F _ := by simp
  parked F _ _ h := by simp [Sys.token, Shared.token, Shared.slots, TimerManager.weight, Worker.token,
    Pc.token, Worker.own, ctxToken, slotToken, Events.has] at h
  quiet i hi := by cases hi

lemma Sys.worker_holds_le (x : Sys κ n N) (F : ℕ) (i : Fin n) :
    x.shared.queued F + (x.workers i).holds F ≤ x.holds F :=
  Nat.add_le_add_left (le_sum (f := fun j => (x.workers j).holds F) i) _

lemma Sys.worker_token_le (x : Sys κ n N) (F : ℕ) (i : Fin n) :
    x.shared.token F + (x.workers i).token F ≤ x.token F :=
  Nat.add_le_add_left (le_sum (f := fun j => (x.workers j).token F) i) _

lemma Owned.other (h : Owned x) {i j : Fin n} (hij : j ≠ i) (hj : 0 < (x.workers j).holds F) :
    (x.workers i).holds F = 0 ∧ x.shared.queued F = 0 := by
  have htwo := add_le_sum (f := fun k => (x.workers k).holds F) hij
  have hle := h.holds F
  simp only [Sys.holds] at hle
  omega

lemma Owned.lt_nextFiber (h : Owned x) {i : Fin n} (hi : 0 < (x.workers i).holds F) :
    F < x.shared.nextFiber := by
  by_contra hge
  have hzero := (h.fresh F (by omega)).2
  have := x.worker_holds_le F i
  omega

/-! ### One step -/

lemma Sys.token_put (i : Fin n) (s : Shared κ N) (w : Worker κ N) :
    (x.put i s w).token F + (x.shared.token F + (x.workers i).token F) =
      x.token F + (s.token F + w.token F) := by
  have h := x.sum_put i s w (Worker.token F)
  have hs : (x.put i s w).shared = s := rfl
  simp only [Sys.token, hs]
  omega

lemma Sys.holds_put (i : Fin n) (s : Shared κ N) (w : Worker κ N) :
    (x.put i s w).holds F + (x.shared.queued F + (x.workers i).holds F) =
      x.holds F + (s.queued F + w.holds F) := by
  have h := x.sum_put i s w (Worker.holds F)
  have hs : (x.put i s w).shared = s := rfl
  simp only [Sys.holds, hs]
  omega

lemma Worker.own_of_eq {w : Worker κ N} (h : w.funcFiber = some F) : w.own F = 1 := by
  simp [Worker.own, h]

lemma Worker.ne_of_own {w : Worker κ N} (h : w.own F = 0) : w.funcFiber ≠ some F := fun hf => by
  rw [Worker.own_of_eq hf] at h
  cases h

lemma Worker.runs_le (w : Worker κ N) : w.pc.runs F ≤ w.holds F := by
  simp only [Worker.holds]
  omega

/-- **A fiber that is woken is with nobody**: its only token is the one that wakes it. -/
lemma Owned.holds_woken (hx : Owned x) {i : Fin n} (hun : Unheld x F)
    (hF : F ∈ (x.workers i).pc.woken S x.shared) : x.holds F = 0 ∧ 0 < x.token F := by
  have hwoken := woken_le (S := S) (s := x.shared) (w := x.workers i) (F := F)
  have hone := one_le_sum hF
  have hparked : ∀ j, (x.workers j).holds F ≤ (x.workers j).token F := fun j => by
    have hr := hun j
    have hh := (x.workers j).pc.hand_le_token (F := F)
    simp only [Worker.holds, Worker.token]
    omega
  have hsum := sum_add_le hparked i
  have htok := hx.token F
  have hle := x.worker_token_le F i
  have hi := hun i
  have hholds : (x.workers i).holds F =
      (x.workers i).pc.hand F + (x.workers i).pc.runs F + (x.workers i).own F := rfl
  simp only [Sys.token] at htok hle ⊢
  simp only [Sys.holds]
  omega

lemma Owned.resumable_woken (hx : Owned x) {i : Fin n} (hun : Unheld x F)
    (hF : F ∈ (x.workers i).pc.woken S x.shared) : Resumable (x.shared.fibers F) := by
  obtain ⟨hzero, hpos⟩ := hx.holds_woken hun hF
  refine hx.parked F hun (fun j => Worker.ne_of_own ?_) hpos
  have := x.worker_holds_le F j
  have hholds : (x.workers j).holds F =
      (x.workers j).pc.hand F + (x.workers j).pc.runs F + (x.workers j).own F := rfl
  omega

/-- The fibers a step wakes are with nobody, so each comes into one pair of hands. -/
lemma Owned.holds_worker (hx : Owned x) {i : Fin n} {s' : Shared κ N} {w' : Worker κ N}
    (hg : ∀ F ∈ (x.workers i).pc.woken S x.shared, Unheld x F)
    (h : WorkerStep S i x.shared (x.workers i) s' w') : (x.put i s' w').holds F ≤ 1 := by
  have hput := x.holds_put (F := F) i s' w'
  have hle := h.holds_le (F := F)
  have hwoken := woken_le (S := S) (s := x.shared) (w := x.workers i) (F := F)
  have htok := hx.token F
  have hhold := hx.holds F
  have hborn := born_le x.shared s' F
  have hw := x.worker_token_le F i
  by_cases hb : born x.shared s' F = 0
  · by_cases hF : F ∈ (x.workers i).pc.woken S x.shared
    · have := (hx.holds_woken (hg F hF) hF).1
      omega
    · have hzero : (((x.workers i).pc.woken S x.shared).map (one F)).sum = 0 := by
        refine List.sum_eq_zero fun y hy => ?_
        obtain ⟨f, hf, rfl⟩ := List.mem_map.1 hy
        exact one_of_ne fun he => hF (he ▸ hf)
      omega
  · have hfresh := hx.fresh F (nextFiber_le_of_born hb)
    omega

lemma Owned.resumable_hand (hx : Owned x) {i : Fin n} (hF : 0 < (x.workers i).pc.hand F) :
    Resumable (x.shared.fibers F) := by
  have hhold : 0 < (x.workers i).holds F := by
    simp only [Worker.holds]
    omega
  have hone := x.worker_holds_le F i
  have hle := hx.holds F
  have halone : ∀ k, (x.workers k).pc.runs F = 0 ∧ (x.workers k).own F = 0 := by
    intro k
    by_cases hk : k = i
    · subst hk
      simp only [Worker.holds] at hone
      omega
    · have hother := (hx.other (i := k) (Ne.symm hk) hhold).1
      simp only [Worker.holds] at hother
      omega
  refine hx.parked F (fun k => (halone k).1) (fun k => Worker.ne_of_own (halone k).2) ?_
  have hh := (x.workers i).pc.hand_le_token (F := F)
  have htok := x.worker_token_le F i
  simp only [Worker.token] at htok
  omega

section Worker

variable {i : Fin n} {s' : Shared κ N} {w' : Worker κ N}

lemma Owned.token_worker (hx : Owned x) (h : WorkerStep S i x.shared (x.workers i) s' w') :
    (x.put i s' w').token F ≤ x.token F + born x.shared s' F := by
  have hput := x.token_put (F := F) i s' w'
  have hle := h.token_le (F := F) (hx.linked i) fun t ht u hu hr => hx.quiet t ht u hu hr F
  omega

/-- What another worker has is not written by a step. -/
lemma Owned.frame_worker (hx : Owned x) (hg : ∀ F ∈ (x.workers i).pc.woken S x.shared, Unheld x F)
    (h : WorkerStep S i x.shared (x.workers i) s' w') {j : Fin n} (hj : j ≠ i)
    (hF : 0 < (x.workers j).holds F) : s'.fibers F = x.shared.fibers F := by
  obtain ⟨hzero, -⟩ := hx.other (i := i) hj hF
  have hle := hx.holds_worker (F := F) hg h
  have htwo := add_le_sum (f := fun k => ((x.put i s' w').workers k).holds F) hj
  rw [Sys.put_workers_self, Sys.put_workers_of_ne hj] at htwo
  have hw' := w'.runs_le (F := F)
  have hw := (x.workers i).runs_le (F := F)
  have hb : born x.shared s' F = 0 := by
    by_contra hb
    have := nextFiber_le_of_born hb
    have := hx.lt_nextFiber hF
    omega
  simp only [Sys.holds] at hle
  rcases (h.fibers F).2.2 hb (by omega) with hsame | hrun
  · exact hsame
  · omega

lemma Unheld.self (hun : Unheld (x.put i s' w') F) : w'.pc.runs F = 0 := by
  have := hun i
  rwa [Sys.put_workers_self] at this

lemma Unheld.before (hun : Unheld (x.put i s' w') F) (hr : (x.workers i).pc.runs F = 0) :
    Unheld x F := fun j => by
  by_cases hj : j = i
  · exact hj ▸ hr
  · have := hun j
    rwa [Sys.put_workers_of_ne hj] at this

lemma Owned.kept_worker (hx : Owned x) (hg : ∀ F ∈ (x.workers i).pc.woken S x.shared, Unheld x F)
    (h : WorkerStep S i x.shared (x.workers i) s' w') {j : Fin n}
    (hj : ((x.put i s' w').workers j).funcFiber = some F) : s'.fibers F = {} := by
  by_cases hji : j = i
  · subst hji
    rw [Sys.put_workers_self] at hj
    rcases (h.kept F).2 hj with hold | hnew
    · have hone := x.worker_holds_le F j
      have hle := hx.holds F
      have hone' := (x.put j s' w').worker_holds_le F j
      have hle' := hx.holds_worker (F := F) hg h
      rw [Sys.put_workers_self] at hone'
      have hown := Worker.own_of_eq hold
      have hown' := Worker.own_of_eq hj
      simp only [Worker.holds] at hone hone'
      have hb : born x.shared s' F = 0 := by
        by_contra hb
        have := (hx.fresh F (nextFiber_le_of_born hb)).2
        omega
      rcases (h.fibers F).2.2 hb (by omega) with hsame | hrun
      · rw [hsame]
        exact hx.kept j F hold
      · omega
    · exact hnew
  · rw [Sys.put_workers_of_ne hji] at hj
    have hown : 0 < (x.workers j).holds F := by
      simp only [Worker.holds, Worker.own_of_eq hj]
      omega
    rw [hx.frame_worker hg h hji hown]
    exact hx.kept j F hj

lemma Owned.unheld_worker (hx : Owned x) (h : WorkerStep S i x.shared (x.workers i) s' w')
    (hun : Unheld (x.put i s' w') F) : (s'.fibers F).state ≠ .running := by
  have hr' := hun.self
  by_cases hr : (x.workers i).pc.runs F = 0
  · obtain ⟨-, hnew, hold⟩ := h.fibers F
    by_cases hb : born x.shared s' F = 0
    · rcases hold hb hr with hsame | hrun
      · rw [hsame]
        exact hx.unheld F (hun.before hr)
      · omega
    · rcases hnew hb with hrun | hres
      · omega
      · exact hres.not_running
  · exact (h.released (hx.linked i) (Nat.pos_of_ne_zero hr) hr').1

lemma Owned.parked_worker (hx : Owned x) (h : WorkerStep S i x.shared (x.workers i) s' w')
    (hun : Unheld (x.put i s' w') F) (hkept : ∀ j, ((x.put i s' w').workers j).funcFiber ≠ some F)
    (hpos : 0 < (x.put i s' w').token F) : Resumable (s'.fibers F) := by
  have hr' := hun.self
  have hput := x.token_put (F := F) i s' w'
  have hle := hx.token F
  have hself : w'.funcFiber ≠ some F := by
    have := hkept i
    rwa [Sys.put_workers_self] at this
  by_cases hr : (x.workers i).pc.runs F = 0
  · obtain ⟨-, hnew, hold⟩ := h.fibers F
    by_cases hb : born x.shared s' F = 0
    · rcases hold hb hr with hsame | hrun
      · rw [hsame]
        have htok := hx.token_worker (F := F) h
        refine hx.parked F (hun.before hr) (fun j => ?_) (by omega)
        by_cases hj : j = i
        · subst hj
          intro hf
          rcases (h.kept F).1 hf with hkeep | hrun | hlost
          · exact hself hkeep
          · omega
          · omega
        · have := hkept j
          rwa [Sys.put_workers_of_ne hj] at this
      · omega
    · exact (hnew hb).resolve_left (by omega)
  · rcases (h.released (hx.linked i) (Nat.pos_of_ne_zero hr) hr').2 with hkeep | hres | hlost
    · exact absurd hkeep hself
    · exact hres
    · omega

theorem Owned.worker (hx : Owned x) (hg : ∀ F ∈ (x.workers i).pc.woken S x.shared, Unheld x F)
    (h : WorkerStep S i x.shared (x.workers i) s' w') : Owned (x.put i s' w') where
  token F := by
    have htok := hx.token_worker (F := F) h
    have hle := hx.token F
    have hborn := born_le x.shared s' F
    by_cases hb : born x.shared s' F = 0
    · omega
    · have := (hx.fresh F (nextFiber_le_of_born hb)).1
      omega
  holds F := hx.holds_worker hg h
  fresh F hF := by
    have hnext : s'.nextFiber ≤ F := hF
    obtain ⟨ht, hh⟩ := hx.fresh F ((h.fibers F).1.trans hnext)
    have hb : born x.shared s' F = 0 := if_neg fun hlt => by omega
    have htok := hx.token_worker (F := F) h
    have hwoken := woken_le (S := S) (s := x.shared) (w := x.workers i) (F := F)
    have hw := x.worker_token_le F i
    have hput := x.holds_put (F := F) i s' w'
    have hle := h.holds_le (F := F)
    exact ⟨by omega, by omega⟩
  linked j := by
    by_cases hj : j = i
    · subst hj
      rw [Sys.put_workers_self]
      refine h.linked (hx.linked j) (fun F hF => hx.lt_nextFiber (i := j) ?_)
        fun F hF => hx.resumable_hand hF
      exact hF.trans_le (x.workers j).runs_le
    · rw [Sys.put_workers_of_ne hj]
      refine (hx.linked j).congr fun F hF => hx.frame_worker hg h hj ?_
      exact hF.trans_le (x.workers j).runs_le
  kept j F hj := hx.kept_worker hg h hj
  unheld F hun := hx.unheld_worker h hun
  parked F hun hkept hpos := hx.parked_worker h hun hkept hpos
  quiet := h.quiet hx.quiet

end Worker

/-- What a step of another thread does to the shared state. -/
structure SharedStep (s s' : Shared κ N) : Prop where
  token : ∀ F, s'.token F ≤ s.token F + born s s' F
  queued : ∀ F, s'.queued F ≤ s.queued F + born s s' F
  next : s.nextFiber ≤ s'.nextFiber
  /-- a new fiber can be resumed -/
  made : ∀ F, born s s' F ≠ 0 → Resumable (s'.fibers F)
  old : ∀ F, born s s' F = 0 → s'.fibers F = s.fibers F
  quiet : Quiet s.timers → Quiet s'.timers

theorem Owned.shared (hx : Owned x) (hw : x'.workers = x.workers)
    (h : SharedStep x.shared x'.shared) : Owned x' := by
  have htok : ∀ F, x'.token F ≤ x.token F + born x.shared x'.shared F := fun F => by
    have := h.token F
    simp only [Sys.token, hw]
    omega
  have hhold : ∀ F, x'.holds F ≤ x.holds F + born x.shared x'.shared F := fun F => by
    have := h.queued F
    simp only [Sys.holds, hw]
    omega
  have hzero : ∀ F, born x.shared x'.shared F ≠ 0 → x.token F = 0 ∧ x.holds F = 0 :=
    fun F hb => hx.fresh F (nextFiber_le_of_born hb)
  have hold : ∀ {i F}, 0 < (x.workers i).holds F → x'.shared.fibers F = x.shared.fibers F := by
    intro i F hF
    refine h.old F ?_
    by_contra hb
    have := (hzero F hb).2
    have := x.worker_holds_le F i
    omega
  refine ⟨fun F => ?_, fun F => ?_, fun F hF => ?_, fun i => ?_, fun i F hi => ?_, fun F hun => ?_,
    fun F hun hkept hpos => ?_, h.quiet hx.quiet⟩
  · have := htok F
    have := hx.token F
    have := born_le x.shared x'.shared F
    by_cases hb : born x.shared x'.shared F = 0
    · omega
    · have := (hzero F hb).1
      omega
  · have := hhold F
    have := hx.holds F
    have := born_le x.shared x'.shared F
    by_cases hb : born x.shared x'.shared F = 0
    · omega
    · have := (hzero F hb).2
      omega
  · have hb : born x.shared x'.shared F = 0 := if_neg fun hlt => by omega
    have := htok F
    have := hhold F
    obtain ⟨ht, hh⟩ := hx.fresh F (h.next.trans hF)
    exact ⟨by omega, by omega⟩
  · rw [hw]
    exact (hx.linked i).congr fun F hF => hold (hF.trans_le (x.workers i).runs_le)
  · rw [hw] at hi
    rw [hold (i := i) (by simp only [Worker.holds, Worker.own_of_eq hi]; omega)]
    exact hx.kept i F hi
  · unfold Unheld at hun
    rw [hw] at hun
    by_cases hb : born x.shared x'.shared F = 0
    · rw [h.old F hb]
      exact hx.unheld F hun
    · exact (h.made F hb).not_running
  · unfold Unheld at hun
    rw [hw] at hun hkept
    by_cases hb : born x.shared x'.shared F = 0
    · rw [h.old F hb]
      have := htok F
      exact hx.parked F hun hkept (by omega)
    · exact h.made F hb

lemma SharedStep.of_eq {s s' : Shared κ N} (ht : s'.tasks = s.tasks) (hf : s'.fibers = s.fibers)
    (hn : s'.nextFiber = s.nextFiber) (hm : s'.timers = s.timers) (hd : s'.fds = s.fds) :
    SharedStep s s' where
  token F := by rw [Shared.token_congr ht hm hd]; omega
  queued F := by rw [Shared.queued_congr ht]; omega
  next := hn.ge
  made F hb := absurd (born_eq_zero hn) hb
  old F _ := by rw [hf]
  quiet hq := hm ▸ hq

lemma SharedStep.schedule (s : Shared κ N) (gs : List κ) (thr : ℤ) :
    SharedStep s (s.schedule (gs.map fun g => .func (.user g)) thr) where
  token F := by rw [Shared.token_schedule, Shared.sum_user]; omega
  queued F := by rw [Shared.queued_schedule, Shared.sum_holds_user]; omega
  next := le_rfl
  made F hb := absurd (born_eq_zero rfl) hb
  old F _ := rfl
  quiet hq := hq

lemma SharedStep.spawn (s : Shared κ N) (g : κ) (thr : ℤ) : SharedStep s (s.spawn g thr) where
  token F := by
    have hborn : one F s.nextFiber = born s (s.spawn g thr) F := one_nextFiber rfl
    rw [Shared.token_spawn]
    omega
  queued F := by
    have hborn : one F s.nextFiber = born s (s.spawn g thr) F := one_nextFiber rfl
    rw [Shared.queued_spawn]
    omega
  next := Nat.le_succ _
  made F hb := by
    rw [born_ne_zero rfl hb]
    exact resumable_spawn g thr
  old F hb := Function.update_of_ne (ne_of_born_eq_zero rfl hb) _ _
  quiet hq := hq

lemma SharedStep.timerAdd {s : Shared κ N} {t : Timer (Func κ N)} {g : κ}
    {m : TimerManager (Func κ N)} {i : ℕ} {changed : Bool}
    (hm : s.timers.addTimer S.addr t = (m, i, changed)) (ht : t.func = .user g) :
    SharedStep s { s with timers := m } where
  token F := by
    have hw := TimerManager.weight_addTimer (m := s.timers) (w := Func.wakes F) (t := t) S.addrInj
    have hzero : t.func.wakes F = 0 := by rw [ht]; rfl
    rw [hm] at hw
    simp only [Shared.token, Shared.slots]
    dsimp only at hw
    omega
  queued F := Nat.le_add_right _ _
  next := le_rfl
  made F hb := absurd (born_eq_zero rfl) hb
  old F _ := rfl
  quiet hq := by
    have hadd : Quiet (s.timers.addTimer S.addr t).1 :=
      TimerManager.all_addTimer hq fun _ F => by rw [ht]; rfl
    rwa [hm] at hadd

theorem Owned.step (hx : Owned x) {a : Act κ n N} (hg : WakesUnheld S x a) (h : SysStep S x a x') :
    Owned x' := by
  cases h with
  | worker hw => exact hx.worker hg hw
  | schedule => exact hx.shared rfl (.schedule _ _ _)
  | spawn => exact hx.shared rfl (.spawn _ _ _)
  | timerAdd he hm => exact hx.shared rfl (.timerAdd hm rfl)
  | addTimer | tickleRead | tickleWrite | stop | stopTickle | stopWrite | join | clock =>
      exact hx.shared rfl (.of_eq rfl rfl rfl rfl rfl)

theorem Owned.of_reach (h : Reach (Sys.step S) (WakesUnheld S) {} x) : Owned x :=
  h.inv Owned.init fun _ hx hg hs => hx.step hg (step_inv hs).2

/-! ### What follows -/

lemma Shared.queued_pos {s : Shared κ N} {tk : Job κ N} (htk : tk ∈ s.tasks)
    (h : tk.work = .fiber F) : 1 ≤ s.queued F := by
  have hmem : tk.work.holds F ∈ s.tasks.map fun tk => tk.work.holds F := List.mem_map_of_mem htk
  have hone : (Work.fiber F : Work κ N).holds F = 1 := one_self F
  have hle := List.single_le_sum (fun _ _ => Nat.zero_le _) _ hmem
  rwa [h, hone] at hle

lemma Owned.selectable (hx : Owned x) {tk : Job κ N} (htk : tk ∈ x.shared.tasks) :
    x.shared.selectable tk.work = true := by
  obtain ⟨work, thr⟩ := tk
  cases work with
  | func g T => rfl
  | fiber F =>
      have hq := Shared.queued_pos (F := F) htk rfl
      have hle := hx.holds F
      have hun : Unheld x F := fun i => by
        have := x.worker_holds_le F i
        have := (x.workers i).runs_le (F := F)
        omega
      simpa [Shared.selectable] using hx.unheld F hun

/-- The assertions of `run` and of `Fiber::call` hold, and nothing gets behind the end of
`MainFunc`. -/
lemma Owned.not_fails (hx : Owned x) {i : Fin n} {site : Site}
    (h : Fails x.shared (x.workers i).pc site) : ∃ a, site = .event a := by
  have hl := hx.linked i
  cases site with
  | run =>
      obtain ⟨tk, htk, hno⟩ := h
      rw [hx.selectable htk] at hno
      cases hno
  | call =>
      obtain ⟨b, f, hpc, hst⟩ := h
      rw [hpc] at hl
      cases b with
      | fiber => rcases hl.state with hr | hr <;> simp [hr] at hst
      | func g T =>
          have hfb : x.shared.fibers f = { ctx := .entry (some g), ticket := some T } := hl
          simp [hfb] at hst
  | dead =>
      obtain ⟨b, f, hpc⟩ := h
      rw [hpc] at hl
      exact hl.2.elim
  | event a => exact ⟨a, rfl⟩

/-- **Only the assertions on events can fail.** -/
theorem crashed_of_reach (h : Reach (Sys.step S) (WakesUnheld S) {} x) {site : Site}
    (hc : x.shared.crashed = some site) : ∃ a, site = .event a := by
  refine Reach.inv (P := fun x => ∀ site, x.shared.crashed = some site → ∃ a, site = .event a) h
    (by simp) (fun {x x' a} hr _ hg hs site hc => ?_) site hc
  obtain ⟨hnone, hstep⟩ := step_inv hs
  cases hstep with
  | worker hw => exact (Owned.of_reach hr).not_fails (hw.crashed hnone hc)
  | schedule | spawn | addTimer | timerAdd | tickleRead | tickleWrite | stop | stopTickle
  | stopWrite | join | clock => exact absurd (hnone.symm.trans hc) (by simp)

/-- The fiber whose code a worker executes. -/
def Pc.executing : Pc κ N → Option ℕ
  | .exec _ f _ => some f
  | _ => none

lemma Pc.runs_of_executing {pc : Pc κ N} (h : pc.executing = some F) : pc.runs F = 1 := by
  unfold executing at h
  split at h
  · cases h
    simp [Pc.runs]
  · cases h

lemma Owned.runs_unique (hx : Owned x) {i j : Fin n} (hi : 0 < (x.workers i).pc.runs F)
    (hj : 0 < (x.workers j).pc.runs F) : i = j := by
  by_contra hij
  have hone := (x.workers i).runs_le (F := F)
  have htwo := (x.workers j).runs_le (F := F)
  have := (hx.other (F := F) hij (by omega)).1
  omega

/-- **One worker per fiber.** In every run whose wake-ups meet fibers that no worker has, a fiber is
executed by one worker at a time, no fiber in the task list is `RUNNING`, and the assertion of
`run` never fails. -/
theorem one_worker_per_fiber (h : Reach (Sys.step S) (WakesUnheld S) {} x) :
    (∀ i j F, (x.workers i).pc.executing = some F → (x.workers j).pc.executing = some F → i = j) ∧
      (∀ tk ∈ x.shared.tasks, x.shared.selectable tk.work = true) ∧
        x.shared.crashed ≠ some .run := by
  have hx := Owned.of_reach h
  refine ⟨fun i j F hi hj => ?_, fun tk htk => hx.selectable htk, fun hc => ?_⟩
  · have hri := Pc.runs_of_executing hi
    have hrj := Pc.runs_of_executing hj
    exact hx.runs_unique (F := F) (by omega) (by omega)
  · obtain ⟨a, ha⟩ := crashed_of_reach h hc
    cases ha

end Invariant

/-! ### A wake-up that comes too early -/

/-- A task that sleeps for no time, and ends. -/
def sleeper : ℕ → Op ℕ 1
  | 0 => .sleep 0 1
  | _ => .ret

def sleeping : Setup ℕ 2 1 := .ofProg sleeper Nat.two_pos small_two

/-- The first worker makes `k` steps with the task; the second finds the timer expired and runs the
function that wakes the task, in `m` steps after it has scheduled it. -/
def wakeAfter (k m : ℕ) : List (Act ℕ 2 1) :=
  .schedule [0] (-1) :: steps 0 k ++ steps 1 7 ++ .worker 1 (.poll []) :: steps 1 6 ++ steps 1 m

theorem one_worker_per_fiber_sleeping :
    ∃ x : Sys ℕ 2 1, x.shared.finished = [1, 0] ∧
      (∀ i j F, (x.workers i).pc.executing = some F → (x.workers j).pc.executing = some F → i = j) ∧
      (∀ tk ∈ x.shared.tasks, x.shared.selectable tk.work = true) ∧ x.shared.crashed ≠ some .run := by
  have h : (run (Sys.step sleeping) (fun x a => decide (WakesUnheld sleeping x a)) {}
      (wakeAfter 13 20)).any (fun x => x.shared.finished == [1, 0]) = true := by decide +kernel
  obtain ⟨x, hr, hx⟩ := exists_reach_of_run (fun _ _ => of_decide_eq_true) h
  exact ⟨x, by simpa using hx, one_worker_per_fiber hr⟩

/-- **A sleeping task is woken before it is asleep.** If the first worker has not yet written the
state `SUSPEND`, the second fails the assertion of `run`; if it has written the state but not
swapped the context, both execute the fiber. -/
theorem woken_before_asleep :
    (∃ x, Reach (Sys.step sleeping) Free {} x ∧ x.shared.crashed = some .run) ∧
      ∃ x, Reach (Sys.step sleeping) Free {} x ∧ ∀ i, (x.workers i).pc.executing = some 0 := by
  have hrun : (run (Sys.step sleeping) (fun _ _ => true) {} (wakeAfter 8 13)).any
      (fun x => x.shared.crashed == some .run) = true := by decide +kernel
  have hboth : (run (Sys.step sleeping) (fun _ _ => true) {} (wakeAfter 9 17)).any
      (fun x => decide (∀ i, (x.workers i).pc.executing = some 0)) = true := by decide +kernel
  obtain ⟨x, hr, hx⟩ := exists_reach_of_run (G := Free) (fun _ _ _ => trivial) hrun
  obtain ⟨y, hy, hexec⟩ := exists_reach_of_run (G := Free) (fun _ _ _ => trivial) hboth
  exact ⟨⟨x, hr, by simpa using hx⟩, y, hy, of_decide_eq_true hexec⟩

end Eva01.Runtime
