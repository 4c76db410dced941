import Eva01.Lib.Runs
import Eva01.Timer

/-!
The calls that threads make on a `TimerManager`, interleaved at the sections under `m_mutex`, and the
order of `m_timers` in every state they lead to (`timers_in_order`).

`m_timers` is ordered by a field of the objects it points to. The field is written in two places, by
`refresh` and when a recurring timer expires, and each time the timer has just been taken out of the
set and is put back later. So at every moment the set is in order of the deadlines the timers have
then, and looking a timer up by comparing finds it if and only if it is there.

A thread has a timer to call `cancel` or `refresh` on only from `addTimer`, which returns it behind
its section. The clock readings are arguments of the actions, and any value will do.
-/

namespace Eva01.TimerManager

open Lib Lib.Runs

variable {γ : Type*}

/-! ### Calls -/

/-- A call under way, by the section that comes next. -/
inductive Call
  /-- `addTimer`, `addConditionTimer`: the object is made, with its deadline. -/
  | insert (i : ℕ)
  /-- `refresh`: the timer is out of the set, and has its new deadline. -/
  | reinsert (i : ℕ)
  /-- `getExpiredFuncs`: the clock has been read; the section that looks for timers. -/
  | look (now : ℕ)
  /-- `getExpiredFuncs`: the section that collects. -/
  | collect (now : ℕ)
  deriving DecidableEq, Repr

/-- What is remembered of a run: the values that `cancel` and `refresh` return, and the timers
collected, with the clock reading of the call that collected them. -/
inductive Record
  | cancel (i : ℕ) (ret : Bool)
  | refresh (i : ℕ) (ret : Bool)
  | collect (i now : ℕ)
  deriving DecidableEq, Repr

structure Threads (γ : Type*) where
  mgr : TimerManager γ := {}
  calls : List Call := []
  log : List Record := []

/-- The actions: the beginning of a call, with the clock reading it makes, up to and including its
first section where nothing else comes before that; and the next section of a call under way. -/
inductive Act (γ : Type*)
  | addTimer (now period : ℕ) (g : γ) (recurring : Bool)
  | cancel (i : ℕ)
  | refresh (i now : ℕ)
  | getExpiredFuncs (now : ℕ)
  | next (k : ℕ)

namespace Threads

/-- Threads have the timer: `addTimer` has returned it. -/
def known (s : Threads γ) (i : ℕ) : Bool := decide (i < s.mgr.fresh) && !s.calls.contains (.insert i)

/-- The next section of the call `c`; the other calls are `rest`. -/
def proceed (addr : ℕ → ℕ) (s : Threads γ) (c : Call) (rest : List Call) : Threads γ :=
  match c with
  | .insert i | .reinsert i => { s with mgr := (s.mgr.addTimerPtr addr i).1, calls := rest }
  | .look now => { s with calls := if s.mgr.hasTimers then .collect now :: rest else rest }
  | .collect now =>
      { mgr := (s.mgr.getExpiredFuncs addr now).1, calls := rest
        log := s.log ++ (s.mgr.expired now).map fun i => .collect i now }

def step (addr : ℕ → ℕ) (s : Threads γ) : Act γ → Option (Threads γ)
  | .addTimer now period g recurring =>
      some { s with
        mgr := s.mgr.make
          { period := period, next := u64 (now + period), func := g, recurring := recurring }
        calls := .insert s.mgr.fresh :: s.calls }
  | .cancel i =>
      if s.known i then
        some { s with mgr := s.mgr.cancel addr i
                      log := s.log ++ [.cancel i (s.mgr.cancelRet addr i)] }
      else none
  | .refresh i now =>
      if s.known i then
        let (m, ok) := s.mgr.refresh addr i now
        some { mgr := m, calls := if ok then .reinsert i :: s.calls else s.calls
               log := s.log ++ [.refresh i ok] }
      else none
  | .getExpiredFuncs now => some { s with calls := .look now :: s.calls }
  | .next k => (s.calls[k]?).map fun c => s.proceed addr c (s.calls.eraseIdx k)

end Threads

/-- What a step can do. -/
inductive Stepped (addr : ℕ → ℕ) (s : Threads γ) : Act γ → Threads γ → Prop
  | addTimer {now period : ℕ} {g : γ} {recurring : Bool} :
      Stepped addr s (.addTimer now period g recurring)
        { s with
          mgr := s.mgr.make
            { period := period, next := u64 (now + period), func := g, recurring := recurring }
          calls := .insert s.mgr.fresh :: s.calls }
  | cancel {i : ℕ} : s.known i = true →
      Stepped addr s (.cancel i)
        { s with mgr := s.mgr.cancel addr i, log := s.log ++ [.cancel i (s.mgr.cancelRet addr i)] }
  | refresh {i now : ℕ} : s.known i = true → s.mgr.cancelRet addr i = true →
      Stepped addr s (.refresh i now)
        { mgr := (s.mgr.cancel addr i).setNext i (u64 (now + s.mgr.periodOf i))
          calls := .reinsert i :: s.calls, log := s.log ++ [.refresh i true] }
  | refreshFails {i now : ℕ} : s.known i = true → s.mgr.cancelRet addr i = false →
      Stepped addr s (.refresh i now) { s with log := s.log ++ [.refresh i false] }
  | getExpiredFuncs {now : ℕ} :
      Stepped addr s (.getExpiredFuncs now) { s with calls := .look now :: s.calls }
  | insert {k i : ℕ} {c : Call} : s.calls[k]? = some c → c = .insert i ∨ c = .reinsert i →
      Stepped addr s (.next k)
        { s with mgr := (s.mgr.addTimerPtr addr i).1, calls := s.calls.eraseIdx k }
  | look {k now : ℕ} : s.calls[k]? = some (.look now) → s.mgr.hasTimers = true →
      Stepped addr s (.next k) { s with calls := .collect now :: s.calls.eraseIdx k }
  | lookEmpty {k now : ℕ} : s.calls[k]? = some (.look now) → s.mgr.hasTimers = false →
      Stepped addr s (.next k) { s with calls := s.calls.eraseIdx k }
  | collect {k now : ℕ} : s.calls[k]? = some (.collect now) →
      Stepped addr s (.next k)
        { mgr := (s.mgr.getExpiredFuncs addr now).1, calls := s.calls.eraseIdx k
          log := s.log ++ (s.mgr.expired now).map fun i => .collect i now }

theorem step_inv {addr : ℕ → ℕ} {s s' : Threads γ} {a : Act γ} (h : s.step addr a = some s') :
    Stepped addr s a s' := by
  cases a with
  | addTimer now period g recurring =>
      cases h
      exact .addTimer
  | cancel i =>
      simp only [Threads.step] at h
      split at h <;> cases h
      exact .cancel ‹_›
  | refresh i now =>
      simp only [Threads.step] at h
      split at h
      · rename_i hk
        cases hf : s.mgr.cancelRet addr i with
        | true =>
            have hr : s.mgr.refresh addr i now =
                ((s.mgr.cancel addr i).setNext i (u64 (now + s.mgr.periodOf i)), true) := if_pos hf
            simp only [hr, if_true] at h
            cases h
            exact .refresh hk hf
        | false =>
            have hr : s.mgr.refresh addr i now = (s.mgr, false) := if_neg (Bool.eq_false_iff.1 hf)
            simp only [hr, Bool.false_eq_true, if_false] at h
            cases h
            exact .refreshFails hk hf
      · cases h
  | getExpiredFuncs now =>
      cases h
      exact .getExpiredFuncs
  | next k =>
      obtain ⟨c, hc, rfl⟩ := Option.map_eq_some_iff.1 h
      cases c with
      | insert i => exact .insert hc (.inl rfl)
      | reinsert i => exact .insert hc (.inr rfl)
      | look now =>
          simp only [Threads.proceed]
          cases ht : s.mgr.hasTimers with
          | true => exact .look hc ht
          | false => exact .lookEmpty hc ht
      | collect now => exact .collect hc

/-! ### Order -/

/-- `m_timers` is in strict order of the deadlines that the timers have now. -/
def InOrder (addr : ℕ → ℕ) (m : TimerManager γ) : Prop := OrderedSet.Sorted (m.cmp addr) m.timers

section Order

variable {addr : ℕ → ℕ} {m m' : TimerManager γ} {i j now : ℕ} {t : Timer γ}

lemma cmp_iff {a b : ℕ} : m.cmp addr a b = true ↔
    m.nextOf a < m.nextOf b ∨ (m.nextOf a = m.nextOf b ∧ addr a < addr b) := by
  unfold cmp
  split
  · simp [*]
  · split
    · simp only [Bool.false_eq_true, false_iff]
      omega
    · simp only [decide_eq_true_eq]
      omega

lemma strictOrder_cmp (hinj : Function.Injective addr) (m : TimerManager γ) :
    OrderedSet.StrictOrder (m.cmp addr) where
  irrefl a := by
    rw [← Bool.not_eq_true, cmp_iff]
    omega
  trans a b c hab hbc := by
    rw [cmp_iff] at hab hbc ⊢
    omega
  tri := trichotomous_cmp hinj m

lemma cmp_congr {a b : ℕ} (ha : m'.nextOf a = m.nextOf a) (hb : m'.nextOf b = m.nextOf b) :
    m'.cmp addr a b = m.cmp addr a b := by
  unfold cmp
  rw [ha, hb]

lemma cmp_of_obj (h : m'.obj = m.obj) : m'.cmp addr = m.cmp addr := by
  funext a b
  unfold cmp nextOf
  rw [h]

lemma nextOf_setNext_of_ne (h : j ≠ i) (v : ℕ) : (m.setNext i v).nextOf j = m.nextOf j := by
  simp [nextOf, setNext, Function.update_of_ne h]

lemma nextOf_setNext_self (h : m.obj i = some t) (v : ℕ) : (m.setNext i v).nextOf i = v := by
  simp [nextOf, setNext, h]

lemma InOrder.congr (h : InOrder addr m) (ht : m'.timers = m.timers)
    (hn : ∀ j ∈ m.timers, m'.nextOf j = m.nextOf j) : InOrder addr m' := by
  unfold InOrder
  rw [ht]
  exact OrderedSet.Sorted.congr h fun a ha b hb => cmp_congr (hn a ha) (hn b hb)

lemma nextOf_make (hj : j ∈ m.timers) (t : Timer γ) : (m.make t).nextOf j = m.nextOf j := by
  simp [nextOf, TimerManager.make, Function.update_of_ne (ne_fresh hj)]

lemma InOrder.make (h : InOrder addr m) (t : Timer γ) : InOrder addr (m.make t) :=
  h.congr rfl fun _ hj => nextOf_make hj t

lemma InOrder.cancel (h : InOrder addr m) (i : ℕ) : InOrder addr (m.cancel addr i) :=
  OrderedSet.Sorted.erase h

/-- A deadline is written to a timer that is out of the set. -/
lemma InOrder.setNext (h : InOrder addr m) (hi : i ∉ m.timers) (v : ℕ) :
    InOrder addr (m.setNext i v) :=
  h.congr rfl fun _ hj => nextOf_setNext_of_ne (ne_of_mem_of_not_mem hj hi) v

lemma InOrder.insert (hinj : Function.Injective addr) (h : InOrder addr m) (ht : m.obj i = some t) :
    InOrder addr (m.insert addr i t ht) := by
  have hcmp : (m.insert addr i t ht).cmp addr = m.cmp addr := cmp_of_obj rfl
  unfold InOrder
  rw [hcmp]
  exact OrderedSet.Sorted.insert (strictOrder_cmp hinj m) h

lemma InOrder.addTimer (hinj : Function.Injective addr) (h : InOrder addr m) (t : Timer γ) :
    InOrder addr (m.addTimer addr t).1 := by
  have hobj : (m.make t).obj m.fresh = some t := Function.update_self _ _ _
  exact (h.make t).insert hinj hobj

lemma addTimerPtr_of_none (h : m.obj i = none) : m.addTimerPtr addr i = (m, false) := by
  unfold addTimerPtr
  split
  · rfl
  · simp_all

lemma addTimerPtr_of_some (h : m.obj i = some t) : m.addTimerPtr addr i =
    (m.insert addr i t h, (m.insert addr i t h).timers.head? == some i) := by
  unfold addTimerPtr
  split
  · simp_all
  · rename_i u hu
    obtain rfl : t = u := Option.some.inj (h.symm.trans hu)
    rfl

lemma addTimerPtr_obj : (m.addTimerPtr addr i).1.obj = m.obj := by
  unfold addTimerPtr
  split <;> rfl

lemma InOrder.addTimerPtr (hinj : Function.Injective addr) (h : InOrder addr m) (i : ℕ) :
    InOrder addr (m.addTimerPtr addr i).1 := by
  cases ht : m.obj i with
  | none => rwa [addTimerPtr_of_none ht]
  | some t =>
      rw [addTimerPtr_of_some ht]
      exact h.insert hinj ht

lemma InOrder.nodup (hinj : Function.Injective addr) (h : InOrder addr m) : m.timers.Nodup :=
  OrderedSet.Sorted.nodup (strictOrder_cmp hinj m) h

lemma InOrder.cancelRet_iff (hinj : Function.Injective addr) (h : InOrder addr m) :
    m.cancelRet addr i = true ↔ i ∈ m.timers :=
  OrderedSet.found_iff (strictOrder_cmp hinj m) h

lemma InOrder.mem_cancel (hinj : Function.Injective addr) (h : InOrder addr m) :
    j ∈ (m.cancel addr i).timers ↔ j ∈ m.timers ∧ j ≠ i :=
  OrderedSet.mem_erase (strictOrder_cmp hinj m) h

lemma InOrder.not_mem_cancel (hinj : Function.Injective addr) (h : InOrder addr m) :
    i ∉ (m.cancel addr i).timers := fun hmem => ((h.mem_cancel hinj).1 hmem).2 rfl

lemma InOrder.refresh (hinj : Function.Injective addr) (h : InOrder addr m) (i now : ℕ) :
    InOrder addr (m.refresh addr i now).1 := by
  unfold TimerManager.refresh
  split
  · exact (h.cancel i).setNext (h.not_mem_cancel hinj) _
  · exact h

lemma refresh_ret : (m.refresh addr i now).2 = m.cancelRet addr i := by
  unfold TimerManager.refresh cancelRet
  split
  · rename_i hfound
    exact hfound.symm
  · rename_i hfound
    exact (Bool.not_eq_true _ ▸ hfound).symm

lemma InOrder.mem_refresh (hinj : Function.Injective addr) (h : InOrder addr m) :
    j ∈ (m.refresh addr i now).1.timers ↔ j ∈ m.timers ∧ j ≠ i := by
  unfold TimerManager.refresh
  split
  · exact h.mem_cancel hinj
  · rename_i hfound
    have hi : i ∉ m.timers := fun hi => hfound ((h.cancelRet_iff hinj).2 hi)
    exact ⟨fun hj => ⟨hj, ne_of_mem_of_not_mem hj hi⟩, And.left⟩

lemma InOrder.head_le (h : InOrder addr m) (hi : m.timers.head? = some i) (hj : j ∈ m.timers) :
    m.nextOf i ≤ m.nextOf j := by
  unfold InOrder OrderedSet.Sorted at h
  cases hl : m.timers with
  | nil => simp [hl] at hi
  | cons a l =>
      rw [hl] at h hi hj
      cases hi
      rcases List.mem_cons.1 hj with rfl | hj
      · exact le_rfl
      · have := cmp_iff.1 ((List.pairwise_cons.1 h).1 j hj)
        omega

/-! ### Order through a sweep -/

lemma sweep_eq (now : ℕ) (l : List ℕ) :
    m.sweep now l =
      (l.filter fun i => decide (m.nextOf i ≤ now), l.filter fun i => !decide (m.nextOf i ≤ now)) := by
  induction l with
  | nil => rfl
  | cons i is ih =>
      simp only [sweep, ih]
      by_cases hi : m.nextOf i ≤ now <;> simp [hi]

lemma expired_eq (m : TimerManager γ) (now : ℕ) :
    m.expired now = m.timers.filter fun i => decide (m.nextOf i ≤ now) := by
  rw [expired, sweep_eq]

lemma mem_expired : i ∈ m.expired now ↔ i ∈ m.timers ∧ m.nextOf i ≤ now := by
  simp [expired_eq]

lemma mem_keep : i ∈ (m.keep now).timers ↔ i ∈ m.timers ∧ now < m.nextOf i := by
  simp [keep, sweep_eq]

lemma rearm_recurring (ht : m.obj i = some t) (hr : t.recurring = true) :
    (m.rearm addr i).obj = (m.setNext i (u64 (t.next + t.period))).obj ∧
      (m.rearm addr i).timers =
        OrderedSet.insert ((m.setNext i (u64 (t.next + t.period))).cmp addr) i m.timers := by
  unfold rearm
  split
  · rename_i hnone
    rw [ht] at hnone
    cases hnone
  · rename_i u hu
    obtain rfl : t = u := Option.some.inj (ht.symm.trans hu)
    rw [if_pos hr]
    have hobj : Function.update m.obj i (some { t with next := u64 (t.next + t.period) }) =
        (m.setNext i (u64 (t.next + t.period))).obj := by simp [TimerManager.setNext, ht]
    exact ⟨hobj, congrArg (fun c => OrderedSet.insert c i m.timers) (cmp_of_obj hobj)⟩

lemma rearm_of_not_recurring (h : ∀ t, m.obj i = some t → t.recurring = false) :
    m.rearm addr i = m := by
  unfold rearm
  split
  · rfl
  · rename_i t ht
    rw [if_neg (by simp [h t ht])]

lemma InOrder.rearm (hinj : Function.Injective addr) (h : InOrder addr m) (hi : i ∉ m.timers) :
    InOrder addr (m.rearm addr i) := by
  by_cases hr : ∃ t, m.obj i = some t ∧ t.recurring = true
  · obtain ⟨t, ht, hr⟩ := hr
    obtain ⟨hobj, htimers⟩ : _ ∧ (m.rearm addr i).timers = _ := rearm_recurring ht hr
    have hset := h.setNext hi (u64 (t.next + t.period))
    unfold InOrder
    rw [cmp_of_obj hobj, htimers]
    exact OrderedSet.Sorted.insert (strictOrder_cmp hinj _) hset
  · rw [rearm_of_not_recurring fun t ht => by simpa using fun hrec => hr ⟨t, ht, hrec⟩]
    exact h

lemma InOrder.rearms (hinj : Function.Injective addr) {l : List ℕ} (h : InOrder addr m)
    (hl : l.Nodup) (hdisj : ∀ i ∈ l, i ∉ m.timers) :
    InOrder addr (l.foldl (TimerManager.rearm addr) m) := by
  induction l generalizing m with
  | nil => exact h
  | cons i is ih =>
      obtain ⟨hi, his⟩ := List.nodup_cons.1 hl
      refine ih (h.rearm hinj (hdisj i List.mem_cons_self)) his fun j hj hmem => ?_
      rcases rearm_timers (m := m) addr i with ht | ⟨-, lt, ht⟩
      · exact hdisj j (List.mem_cons_of_mem _ hj) (ht ▸ hmem)
      · rcases OrderedSet.eq_or_mem_of_mem_insert (ht ▸ hmem) with rfl | hmem
        · exact hi hj
        · exact hdisj j (List.mem_cons_of_mem _ hj) hmem

lemma InOrder.keep (h : InOrder addr m) (now : ℕ) : InOrder addr (m.keep now) := by
  have hsub : (m.keep now).timers.Sublist m.timers := by
    simp only [TimerManager.keep, sweep_eq]
    exact List.filter_sublist
  exact List.Pairwise.sublist hsub h

lemma InOrder.expired_nodup (hinj : Function.Injective addr) (h : InOrder addr m) (now : ℕ) :
    (m.expired now).Nodup := by
  rw [expired_eq]
  exact (h.nodup hinj).filter _

lemma InOrder.getExpiredFuncs (hinj : Function.Injective addr) (h : InOrder addr m) (now : ℕ) :
    InOrder addr (m.getExpiredFuncs addr now).1 := by
  refine (h.keep now).rearms hinj (h.expired_nodup hinj now) fun i hi hmem => ?_
  have := (mem_expired.1 hi).2
  have := (mem_keep.1 hmem).2
  omega

/-- A deadline is written in a sweep only while its timer is out of the set. -/
lemma InOrder.out_of_set (hinj : Function.Injective addr) (h : InOrder addr m) {pre post : List ℕ}
    (hsplit : m.expired now = pre ++ i :: post) :
    i ∉ (pre.foldl (TimerManager.rearm addr) (m.keep now)).timers := by
  have hnodup := h.expired_nodup hinj now
  rw [hsplit] at hnodup
  intro hmem
  rcases (rearms_timers pre).2 hmem with hkeep | hpre
  · have hexp : i ∈ m.expired now := by simp [hsplit]
    have := (mem_expired.1 hexp).2
    have := (mem_keep.1 hkeep).2
    omega
  · exact (List.nodup_append.1 hnodup).2.2 i hpre i List.mem_cons_self rfl

end Order

/-! ### What a sweep leaves -/

/-- `m_recurring` of an object. -/
def recurs (m : TimerManager γ) (i : ℕ) : Bool := ((m.obj i).map Timer.recurring).getD false

section Sweep

variable {addr : ℕ → ℕ} {m m' : TimerManager γ} {i j now : ℕ}

/-- The fields of an object that no operation writes. -/
structure SameObject (m m' : TimerManager γ) (j : ℕ) : Prop where
  recurs : m'.recurs j = m.recurs j
  period : m'.periodOf j = m.periodOf j

lemma SameObject.of_obj (h : m'.obj j = m.obj j) : SameObject m m' j := by
  constructor
  · unfold TimerManager.recurs
    rw [h]
  · unfold periodOf
    rw [h]

lemma SameObject.trans {m'' : TimerManager γ} (h : SameObject m m' j) (h' : SameObject m' m'' j) :
    SameObject m m'' j :=
  ⟨h'.recurs.trans h.recurs, h'.period.trans h.period⟩

lemma sameObject_setNext (v : ℕ) : SameObject m (m.setNext i v) j := by
  by_cases hj : j = i
  · subst hj
    constructor <;> simp [recurs, periodOf, setNext, Function.comp_def]
  · exact .of_obj (Function.update_of_ne hj _ _)

lemma rearm_cases (addr : ℕ → ℕ) (m : TimerManager γ) (i : ℕ) :
    (m.recurs i = false ∧ m.rearm addr i = m) ∨
      (m.recurs i = true ∧
        (m.rearm addr i).obj = (m.setNext i (u64 (m.nextOf i + m.periodOf i))).obj ∧
          (m.rearm addr i).timers =
            OrderedSet.insert ((m.setNext i (u64 (m.nextOf i + m.periodOf i))).cmp addr) i m.timers) := by
  cases hr : m.recurs i with
  | false =>
      refine .inl ⟨rfl, rearm_of_not_recurring fun t ht => ?_⟩
      simpa [recurs, ht] using hr
  | true =>
      cases ht : m.obj i with
      | none => simp [recurs, ht] at hr
      | some t =>
          have hrec : t.recurring = true := by simpa [recurs, ht] using hr
          have hnext : m.nextOf i = t.next := by simp [nextOf, ht]
          have hperiod : m.periodOf i = t.period := by simp [periodOf, ht]
          rw [hnext, hperiod]
          exact .inr ⟨rfl, rearm_recurring ht hrec⟩

lemma sameObject_rearm : SameObject m (m.rearm addr i) j := by
  rcases rearm_cases addr m i with ⟨-, heq⟩ | ⟨-, hobj, -⟩
  · rw [heq]
    exact ⟨rfl, rfl⟩
  · exact (sameObject_setNext _).trans (.of_obj (congrFun hobj j))

lemma mem_rearm (hinj : Function.Injective addr) :
    j ∈ (m.rearm addr i).timers ↔ j ∈ m.timers ∨ (j = i ∧ m.recurs i = true) := by
  rcases rearm_cases addr m i with ⟨hr, heq⟩ | ⟨hr, -, ht⟩
  · rw [heq, hr]
    simp
  · rw [ht, OrderedSet.mem_insert (trichotomous_cmp hinj _), hr, or_comm]
    simp

lemma nextOf_rearm : (m.rearm addr i).nextOf j =
    if j = i ∧ m.recurs i = true then u64 (m.nextOf i + m.periodOf i) else m.nextOf j := by
  rcases rearm_cases addr m i with ⟨hr, heq⟩ | ⟨hr, hobj, -⟩
  · rw [heq, hr]
    simp
  · have hnext : (m.rearm addr i).nextOf j =
        (m.setNext i (u64 (m.nextOf i + m.periodOf i))).nextOf j := by
      unfold nextOf
      rw [hobj]
      rfl
    rw [hnext]
    by_cases hj : j = i
    · subst hj
      rw [if_pos ⟨rfl, hr⟩]
      cases ht : m.obj j with
      | none => simp [recurs, ht] at hr
      | some t => exact nextOf_setNext_self ht _
    · rw [if_neg fun h => hj h.1, nextOf_setNext_of_ne hj]

lemma sameObject_rearms (l : List ℕ) : SameObject m (l.foldl (rearm addr) m) j := by
  induction l generalizing m with
  | nil => exact ⟨rfl, rfl⟩
  | cons i is ih => exact sameObject_rearm.trans ih

lemma mem_rearms (hinj : Function.Injective addr) (l : List ℕ) :
    j ∈ (l.foldl (rearm addr) m).timers ↔ j ∈ m.timers ∨ (j ∈ l ∧ m.recurs j = true) := by
  induction l generalizing m with
  | nil => simp
  | cons i is ih =>
      rw [List.foldl_cons, ih, mem_rearm hinj, (sameObject_rearm (j := j)).recurs, List.mem_cons]
      constructor
      · rintro ((h | ⟨rfl, hr⟩) | ⟨h, hr⟩)
        · exact .inl h
        · exact .inr ⟨.inl rfl, hr⟩
        · exact .inr ⟨.inr h, hr⟩
      · rintro (h | ⟨rfl | h, hr⟩)
        · exact .inl (.inl h)
        · exact .inl (.inr ⟨rfl, hr⟩)
        · exact .inr ⟨h, hr⟩

lemma nextOf_rearms_of_not_mem {l : List ℕ} (h : j ∉ l) :
    (l.foldl (rearm addr) m).nextOf j = m.nextOf j := by
  induction l generalizing m with
  | nil => rfl
  | cons i is ih =>
      obtain ⟨hi, his⟩ := not_or.1 (mt List.mem_cons.2 h)
      rw [List.foldl_cons, ih his, nextOf_rearm, if_neg fun hji => hi hji.1]

lemma nextOf_rearms {l : List ℕ} (hl : l.Nodup) (hj : j ∈ l) (hr : m.recurs j = true) :
    (l.foldl (rearm addr) m).nextOf j = u64 (m.nextOf j + m.periodOf j) := by
  induction l generalizing m with
  | nil => cases hj
  | cons i is ih =>
      obtain ⟨hi, his⟩ := List.nodup_cons.1 hl
      rw [List.foldl_cons]
      by_cases hji : j = i
      · subst hji
        rw [nextOf_rearms_of_not_mem hi, nextOf_rearm, if_pos ⟨rfl, hr⟩]
      · have hmem : j ∈ is := (List.mem_cons.1 hj).resolve_left hji
        rw [ih his hmem ((sameObject_rearm (i := i)).recurs.trans hr), nextOf_rearm,
          if_neg fun h => hji h.1, (sameObject_rearm (j := j)).period]

lemma sameObject_getExpiredFuncs (addr : ℕ → ℕ) (m : TimerManager γ) (now j : ℕ) :
    SameObject m (m.getExpiredFuncs addr now).1 j := by
  have hkeep : SameObject m (m.keep now) j := ⟨rfl, rfl⟩
  exact hkeep.trans (sameObject_rearms _)

/-- **The set after a sweep**: what was not due, and what recurs. -/
lemma mem_getExpiredFuncs (hinj : Function.Injective addr) :
    j ∈ (m.getExpiredFuncs addr now).1.timers ↔
      j ∈ m.timers ∧ (now < m.nextOf j ∨ m.recurs j = true) := by
  have hrec : (m.keep now).recurs j = m.recurs j := rfl
  have hexp : j ∈ m.expired now ↔ _ := mem_expired
  simp only [getExpiredFuncs, mem_rearms hinj, mem_keep, hrec]
  unfold expired at hexp
  rw [hexp]
  by_cases hd : now < m.nextOf j
  · simp only [hd, true_or, and_true]
    tauto
  · have hle : m.nextOf j ≤ now := by omega
    simp [hd, hle]

lemma nextOf_getExpiredFuncs_of_not_mem (hj : j ∉ m.expired now) :
    (m.getExpiredFuncs addr now).1.nextOf j = m.nextOf j :=
  nextOf_rearms_of_not_mem (m := m.keep now) hj

lemma InOrder.nextOf_getExpiredFuncs (hinj : Function.Injective addr) (h : InOrder addr m)
    (hj : j ∈ m.expired now) (hr : m.recurs j = true) :
    (m.getExpiredFuncs addr now).1.nextOf j = u64 (m.nextOf j + m.periodOf j) :=
  nextOf_rearms (m := m.keep now) (h.expired_nodup hinj now) hj hr

end Sweep

/-! ### Whole runs -/

section Runs

variable {addr : ℕ → ℕ} {s s' : Threads γ} {a : Act γ}

theorem InOrder.step (hinj : Function.Injective addr) (h : InOrder addr s.mgr)
    (hs : Stepped addr s a s') : InOrder addr s'.mgr := by
  cases hs with
  | addTimer => exact h.make _
  | @cancel i hk => exact h.cancel i
  | @refresh i now hk hf => exact (h.cancel i).setNext (h.not_mem_cancel hinj) _
  | refreshFails | getExpiredFuncs | look | lookEmpty => exact h
  | @insert k i c hc hci => exact h.addTimerPtr hinj i
  | @collect k now hc => exact h.getExpiredFuncs hinj now

theorem InOrder.of_reach (hinj : Function.Injective addr) {G : Threads γ → Act γ → Prop}
    (h : Reach (Threads.step addr) G {} s) : InOrder addr s.mgr :=
  h.inv (P := fun s => InOrder addr s.mgr) (by exact List.Pairwise.nil)
    fun _ hx _ hs => hx.step hinj (step_inv hs)

/-- A step moves the deadline of a timer in the set only in a sweep that takes it out. -/
lemma Stepped.nextOf_eq (hinj : Function.Injective addr) (h : InOrder addr s.mgr)
    (hs : Stepped addr s a s') {j : ℕ} (hj : j ∈ s.mgr.timers) (hj' : j ∈ s'.mgr.timers) :
    s'.mgr.nextOf j = s.mgr.nextOf j ∨
      ∃ k now, a = .next k ∧ s.calls[k]? = some (.collect now) ∧ j ∈ s.mgr.expired now := by
  cases hs with
  | addTimer => exact .inl (nextOf_make hj _)
  | cancel | refreshFails | getExpiredFuncs | look | lookEmpty => exact .inl rfl
  | @refresh i now hk hf =>
      have hji : j ≠ i := ((h.mem_cancel hinj).1 hj').2
      exact .inl (nextOf_setNext_of_ne hji _)
  | @insert k i c hc hci =>
      refine .inl ?_
      unfold nextOf
      rw [addTimerPtr_obj]
  | @collect k now hc =>
      by_cases hdue : j ∈ s.mgr.expired now
      · exact .inr ⟨k, now, rfl, hc, hdue⟩
      · exact .inl (nextOf_getExpiredFuncs_of_not_mem hdue)

/-- **The timer set is in order.** In every state that any calls of any threads lead to, `m_timers`
is strictly increasing under `Timer::cmp` on the current deadlines, and holds no timer twice.

A deadline is written only while its timer is out of the set: `refresh` and each turn of the sweep
of `getExpiredFuncs` write that of a timer they have taken out, and a step that leaves a timer in the
set leaves its deadline. The `erase` of `cancel` and of `refresh` removes its timer if and only if it
is in the set, and nothing else; and the first timer has the least deadline. -/
theorem timers_in_order (hinj : Function.Injective addr) (h : Reach (Threads.step addr) Free {} s) :
    s.mgr.timers.Pairwise (fun a b => s.mgr.cmp addr a b = true) ∧ s.mgr.timers.Nodup ∧
    (∀ i, i ∉ (s.mgr.cancel addr i).timers) ∧
    (∀ now pre i post, s.mgr.expired now = pre ++ i :: post →
      i ∉ (pre.foldl (rearm addr) (s.mgr.keep now)).timers ∧
      ∀ j ∈ (pre.foldl (rearm addr) (s.mgr.keep now)).timers,
        ((pre.foldl (rearm addr) (s.mgr.keep now)).rearm addr i).nextOf j =
          (pre.foldl (rearm addr) (s.mgr.keep now)).nextOf j) ∧
    (∀ a s', s.step addr a = some s' → ∀ j ∈ s.mgr.timers, j ∈ s'.mgr.timers →
      s'.mgr.nextOf j = s.mgr.nextOf j ∨
        ∃ k now, a = .next k ∧ s.calls[k]? = some (.collect now) ∧ j ∈ s.mgr.expired now) ∧
    (∀ i, s.mgr.cancelRet addr i = true ↔ i ∈ s.mgr.timers) ∧
    (∀ i j, j ∈ (s.mgr.cancel addr i).timers ↔ j ∈ s.mgr.timers ∧ j ≠ i) ∧
    (∀ i now, (s.mgr.refresh addr i now).2 = true ↔ i ∈ s.mgr.timers) ∧
    (∀ i now j, j ∈ (s.mgr.refresh addr i now).1.timers ↔ j ∈ s.mgr.timers ∧ j ≠ i) ∧
    (∀ i, s.mgr.timers.head? = some i → ∀ j ∈ s.mgr.timers, s.mgr.nextOf i ≤ s.mgr.nextOf j) := by
  have hx := InOrder.of_reach hinj h
  refine ⟨hx, hx.nodup hinj, fun i => hx.not_mem_cancel hinj, fun now pre i post hsplit => ?_,
    fun a s' hs j hj hj' => (step_inv hs).nextOf_eq hinj hx hj hj', fun i => hx.cancelRet_iff hinj,
    fun i j => hx.mem_cancel hinj, fun i now => ?_, fun i now j => hx.mem_refresh hinj,
    fun i hi j hj => hx.head_le hi hj⟩
  · have hout := hx.out_of_set hinj hsplit
    refine ⟨hout, fun j hj => ?_⟩
    rw [nextOf_rearm, if_neg fun hji => ne_of_mem_of_not_mem hj hout hji.1]
  · rw [refresh_ret]
    exact hx.cancelRet_iff hinj

theorem timers_in_order_refreshed :
    ∃ s : Threads ℕ, s.mgr.timers = [1, 0] ∧ s.mgr.nextOf 1 ≤ s.mgr.nextOf 0 ∧
      s.mgr.cancelRet id 0 = true := by
  have h : (run (Threads.step id) (fun _ _ => true) ({} : Threads ℕ)
      [.addTimer 0 5 0 false, .next 0, .addTimer 0 7 1 true, .next 0, .refresh 0 4,
        .next 0]).any (fun s => s.mgr.timers == [1, 0]) = true := by decide +kernel
  obtain ⟨s, hr, hs⟩ := exists_reach_of_run (G := Free) (fun _ _ _ => trivial) h
  have htimers : s.mgr.timers = [1, 0] := by simpa using hs
  obtain ⟨-, -, -, -, -, hfound, -, -, -, hhead⟩ := timers_in_order Function.injective_id hr
  exact ⟨s, htimers, hhead 1 (by rw [htimers]; rfl) 0 (by simp [htimers]),
    (hfound 0).2 (by simp [htimers])⟩

end Runs

end Eva01.TimerManager
