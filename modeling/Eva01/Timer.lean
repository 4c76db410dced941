import Eva01.Lib.OrderedSet
import Mathlib

/-!
`TimerManager`: the timer objects, the ordered set `m_timers`, and the sections of `addTimer`,
`Timer::cancel`, `Timer::refresh`, `getNextTimeMs`, `hasTimers` and `getExpiredFuncs`.

A timer is an object that outlives its time in the set, so the objects are kept apart from the set,
which holds their numbers. `Timer::cmp` compares the deadlines the objects have at the moment and
then their addresses; `addr` gives the address of an object. Deadlines are `uint64_t` values and
wrap around.

What later modules use are the three ways a set changes: by one new timer, by one timer leaving,
and by a sweep of `getExpiredFuncs`. Each comes with what it does to a sum over the functions held
(`weight_*`), to a single timer (`armed_*`) and to a property of all of them (`all_*`).

Types: `γ` for the functions.
-/

namespace Eva01

open Lib

variable {γ : Type*}

/-- The value of a `uint64_t` computation. -/
def u64 (x : ℕ) : ℕ := x % 2 ^ 64

structure Timer (γ : Type*) where
  period : ℕ
  next : ℕ
  func : γ
  recurring : Bool

/-- The timer objects made so far, by number, and `m_timers`. -/
structure TimerManager (γ : Type*) where
  obj : ℕ → Option (Timer γ) := fun _ => none
  /-- The number the next object gets. -/
  fresh : ℕ := 0
  timers : List ℕ := []
  /-- Only numbers handed out are those of objects. -/
  below : ∀ i t, obj i = some t → i < fresh := by simp
  /-- The set holds objects. -/
  made : ∀ i ∈ timers, (obj i).isSome := by exact List.forall_mem_nil _

namespace TimerManager

/-- `m_next` of an object. -/
def nextOf (m : TimerManager γ) (i : ℕ) : ℕ := ((m.obj i).map Timer.next).getD 0

/-- `Timer::cmp`. -/
def cmp (addr : ℕ → ℕ) (m : TimerManager γ) (a b : ℕ) : Bool :=
  if m.nextOf a < m.nextOf b then true
  else if m.nextOf b < m.nextOf a then false
  else addr a < addr b

lemma trichotomous_cmp {addr : ℕ → ℕ} (hinj : Function.Injective addr) (m : TimerManager γ) :
    OrderedSet.Trichotomous (m.cmp addr) := by
  intro a b hab hba
  by_cases h₁ : m.nextOf a < m.nextOf b
  · simp [cmp, h₁] at hab
  · by_cases h₂ : m.nextOf b < m.nextOf a
    · simp [cmp, h₂] at hba
    · simp only [cmp, h₁, h₂, if_false, decide_eq_false_iff_not] at hab hba
      exact hinj (by omega)

/-! ### The sections -/

/-- An object made by `std::make_shared<Timer>`, with the deadline its constructor computed. -/
def make (m : TimerManager γ) (t : Timer γ) : TimerManager γ where
  obj := Function.update m.obj m.fresh (some t)
  fresh := m.fresh + 1
  timers := m.timers
  below i t h := by
    by_cases hi : i = m.fresh
    · omega
    · rw [Function.update_of_ne hi] at h
      exact Nat.lt_succ_of_lt (m.below i t h)
  made i hi := by
    by_cases hf : i = m.fresh
    · simp [hf]
    · rw [Function.update_of_ne hf]
      exact m.made i hi

/-- `m_timers.insert(timer)`, for an object. -/
def insert (addr : ℕ → ℕ) (m : TimerManager γ) (i : ℕ) (t : Timer γ) (h : m.obj i = some t) :
    TimerManager γ where
  obj := m.obj
  fresh := m.fresh
  timers := OrderedSet.insert (m.cmp addr) i m.timers
  below := m.below
  made j hj := by
    rcases OrderedSet.eq_or_mem_of_mem_insert hj with rfl | hj
    · simp [h]
    · exact m.made j hj

/-- The section of `addTimer`, for a timer whose deadline has been computed: the manager, the
number of the timer, and whether it has become the first one. -/
def addTimer (addr : ℕ → ℕ) (m : TimerManager γ) (t : Timer γ) : TimerManager γ × ℕ × Bool :=
  let m' := (m.make t).insert addr m.fresh t (by simp [make])
  (m', m.fresh, m'.timers.head? == some m.fresh)

/-- The section of `Timer::cancel`. -/
def cancel (addr : ℕ → ℕ) (m : TimerManager γ) (i : ℕ) : TimerManager γ where
  obj := m.obj
  fresh := m.fresh
  timers := OrderedSet.erase (m.cmp addr) i m.timers
  below := m.below
  made j hj := m.made j (OrderedSet.erase_sublist.subset hj)

/-- What `Timer::cancel` returns: whether `erase` removed an element. -/
def cancelRet (addr : ℕ → ℕ) (m : TimerManager γ) (i : ℕ) : Bool :=
  OrderedSet.found (m.cmp addr) i m.timers

/-- `m_period` of an object. -/
def periodOf (m : TimerManager γ) (i : ℕ) : ℕ := ((m.obj i).map Timer.period).getD 0

/-- A write of `m_next`. -/
def setNext (m : TimerManager γ) (i v : ℕ) : TimerManager γ where
  obj := Function.update m.obj i ((m.obj i).map fun t => { t with next := v })
  fresh := m.fresh
  timers := m.timers
  below j u hj := by
    by_cases hji : j = i
    · rw [hji, Function.update_self] at hj
      obtain ⟨t, ht, -⟩ := Option.map_eq_some_iff.1 hj
      exact hji ▸ m.below i t ht
    · exact m.below j u (by rwa [Function.update_of_ne hji] at hj)
  made j hj := by
    by_cases hji : j = i
    · rw [hji, Function.update_self, Option.isSome_map]
      exact m.made i (hji ▸ hj)
    · rw [Function.update_of_ne hji]
      exact m.made j hj

/-- The first section of `Timer::refresh`, at the clock reading `now`: the manager, and whether the
timer was in the set. -/
def refresh (addr : ℕ → ℕ) (m : TimerManager γ) (i now : ℕ) : TimerManager γ × Bool :=
  if OrderedSet.found (m.cmp addr) i m.timers then
    ((m.cancel addr i).setNext i (u64 (now + m.periodOf i)), true)
  else (m, false)

/-- The section of `addTimer(Timer::ptr)` for an object that has been made: the manager, and whether
the timer is now the first one. -/
def addTimerPtr (addr : ℕ → ℕ) (m : TimerManager γ) (i : ℕ) : TimerManager γ × Bool :=
  match h : m.obj i with
  | none => (m, false)
  | some t =>
      let m' := m.insert addr i t h
      (m', m'.timers.head? == some i)

def hasTimers (m : TimerManager γ) : Bool := !m.timers.isEmpty

/-- `getNextTimeMs`, with `none` for `~0ull`. -/
def getNextTimeMs (m : TimerManager γ) (now : ℕ) : Option ℕ :=
  m.timers.head?.map fun i => if now < m.nextOf i then m.nextOf i - now else 0

/-- The loop of `getExpiredFuncs` over the set: the expired timers, in order, and those kept. -/
def sweep (m : TimerManager γ) (now : ℕ) : List ℕ → List ℕ × List ℕ
  | [] => ([], [])
  | i :: is =>
      let (expired, kept) := m.sweep now is
      if m.nextOf i ≤ now then (i :: expired, kept) else (expired, i :: kept)

/-- `timer->m_next += timer->m_period; m_timers.insert(timer)`, for a recurring timer. -/
def rearm (addr : ℕ → ℕ) (m : TimerManager γ) (i : ℕ) : TimerManager γ :=
  match h : m.obj i with
  | none => m
  | some t =>
      if t.recurring then
        let t' := { t with next := u64 (t.next + t.period) }
        let m' : TimerManager γ :=
          { obj := Function.update m.obj i (some t'), fresh := m.fresh, timers := m.timers
            below := fun j u hj => by
              by_cases hji : j = i
              · exact hji ▸ m.below i t h
              · exact m.below j u (by rwa [Function.update_of_ne hji] at hj)
            made := fun j hj => by
              by_cases hji : j = i
              · simp [hji]
              · rw [Function.update_of_ne hji]
                exact m.made j hj }
        m'.insert addr i t' (by simp [m'])
      else m

/-- The expired timers leave the set. -/
def keep (m : TimerManager γ) (now : ℕ) : TimerManager γ where
  obj := m.obj
  fresh := m.fresh
  timers := (m.sweep now m.timers).2
  below := m.below
  made j hj := m.made j (by
    suffices ∀ l, j ∈ (m.sweep now l).2 → j ∈ l from this _ hj
    intro l
    induction l with
    | nil => exact id
    | cons i is ih =>
        simp only [sweep]
        split
        · exact fun hj => List.mem_cons_of_mem _ (ih hj)
        · exact fun hj => (List.mem_cons.1 hj).elim (fun h => h ▸ List.mem_cons_self)
            fun hj => List.mem_cons_of_mem _ (ih hj))

/-- The section of `getExpiredFuncs` under the write lock, at the clock reading `now`. -/
def getExpiredFuncs (addr : ℕ → ℕ) (m : TimerManager γ) (now : ℕ) : TimerManager γ × List γ :=
  let expired := (m.sweep now m.timers).1
  (expired.foldl (rearm addr) (m.keep now), expired.filterMap fun i => (m.obj i).map Timer.func)

/-- The timers that the section collects, in order. -/
def expired (m : TimerManager γ) (now : ℕ) : List ℕ := (m.sweep now m.timers).1

/-! ### What the set holds -/

/-- The function of an object, weighed. -/
def weigh (m : TimerManager γ) (w : γ → ℕ) (i : ℕ) : ℕ := ((m.obj i).map fun t => w t.func).getD 0

/-- The sum of the weights of the functions in the set. -/
def weight (m : TimerManager γ) (w : γ → ℕ) : ℕ := (m.timers.map (m.weigh w)).sum

/-- The timer `i` is in the set, with the function `g`. -/
def Armed (m : TimerManager γ) (i : ℕ) (g : γ) : Prop :=
  i ∈ m.timers ∧ (m.obj i).map Timer.func = some g

/-- Every timer in the set has a function and a kind that satisfy `q`. -/
def All (m : TimerManager γ) (q : γ → Bool → Prop) : Prop :=
  ∀ i ∈ m.timers, ∀ t, m.obj i = some t → q t.func t.recurring

section Changes

variable {addr : ℕ → ℕ} {m : TimerManager γ} {w : γ → ℕ} {q : γ → Bool → Prop} {t : Timer γ}

lemma fresh_not_mem : m.fresh ∉ m.timers := fun h => by
  obtain ⟨u, hu⟩ := Option.isSome_iff_exists.1 (m.made _ h)
  exact Nat.lt_irrefl _ (m.below _ u hu)

lemma ne_fresh {i : ℕ} (h : i ∈ m.timers) : i ≠ m.fresh := fun he => fresh_not_mem (he ▸ h)

lemma weigh_make {i : ℕ} (h : i ∈ m.timers) : (m.make t).weigh w i = m.weigh w i := by
  simp [weigh, make, Function.update_of_ne (ne_fresh h)]

theorem weight_addTimer (hinj : Function.Injective addr) :
    (m.addTimer addr t).1.weight w = m.weight w + w t.func := by
  have hperm := OrderedSet.insert_perm (l := m.timers) (x := m.fresh)
    (trichotomous_cmp hinj (m.make t)) fresh_not_mem
  have hsum : (m.addTimer addr t).1.weight w =
      ((m.fresh :: m.timers).map ((m.make t).weigh w)).sum := (hperm.map _).sum_eq
  have hself : (m.make t).weigh w m.fresh = w t.func := by simp [weigh, make]
  have hrest : m.timers.map ((m.make t).weigh w) = m.timers.map (m.weigh w) :=
    List.map_congr_left fun i hi => weigh_make hi
  rw [hsum, List.map_cons, List.sum_cons, hself, hrest, weight, Nat.add_comm]

theorem weight_cancel_le (addr : ℕ → ℕ) (i : ℕ) : (m.cancel addr i).weight w ≤ m.weight w :=
  (OrderedSet.erase_sublist.map _).sum_le_sum fun _ _ => Nat.zero_le _

theorem armed_addTimer {i : ℕ} {g : γ} (h : m.Armed i g) : (m.addTimer addr t).1.Armed i g :=
  ⟨OrderedSet.mem_insert_of_mem h.1, by
    simpa [addTimer, insert, make, Function.update_of_ne (ne_fresh h.1)] using h.2⟩

theorem armed_addTimer_self (hinj : Function.Injective addr) :
    (m.addTimer addr t).1.Armed m.fresh t.func := by
  have hperm := OrderedSet.insert_perm (l := m.timers) (x := m.fresh)
    (trichotomous_cmp hinj (m.make t)) fresh_not_mem
  exact ⟨hperm.symm.subset List.mem_cons_self, by simp [addTimer, insert, make]⟩

theorem armed_cancel (hinj : Function.Injective addr) {i j : ℕ} {g : γ} (h : m.Armed i g)
    (hij : i ≠ j) : (m.cancel addr j).Armed i g :=
  ⟨OrderedSet.mem_erase_of_ne (trichotomous_cmp hinj m) h.1 hij, h.2⟩

theorem all_addTimer (h : m.All q) (ht : q t.func t.recurring) : (m.addTimer addr t).1.All q := by
  intro i hi u hu
  rcases OrderedSet.eq_or_mem_of_mem_insert hi with rfl | hi
  · have : u = t := by simpa [addTimer, insert, make, eq_comm] using hu
    exact this ▸ ht
  · have hmem : i ∈ m.timers := hi
    have hold : Function.update m.obj m.fresh (some t) i = some u := hu
    rw [Function.update_of_ne (ne_fresh hmem)] at hold
    exact h i hmem u hold

theorem all_cancel (i : ℕ) (h : m.All q) : (m.cancel addr i).All q :=
  fun j hj u hu => h j (OrderedSet.erase_sublist.subset hj) u hu

/-! ### Expiry -/

/-- The function and the kind of an object. -/
def kind (m : TimerManager γ) (i : ℕ) : Option (γ × Bool) :=
  (m.obj i).map fun t => (t.func, t.recurring)

lemma weigh_eq_kind (i : ℕ) : m.weigh w i = ((m.kind i).map fun k => w k.1).getD 0 := by
  cases h : m.obj i <;> simp [weigh, kind, h]

lemma rearm_kind (i j : ℕ) : (m.rearm addr i).kind j = m.kind j := by
  unfold rearm
  split
  · rfl
  · rename_i t ht
    split
    · by_cases hj : j = i
      · subst hj
        simp [kind, insert, ht]
      · simp [kind, insert, Function.update_of_ne hj]
    · rfl

/-- The set after rearming: unchanged, or with one recurring timer put in. -/
lemma rearm_timers (addr : ℕ → ℕ) (i : ℕ) :
    (m.rearm addr i).timers = m.timers ∨
      (∃ g, m.kind i = some (g, true)) ∧ ∃ lt, (m.rearm addr i).timers =
        OrderedSet.insert lt i m.timers := by
  unfold rearm
  split
  · exact .inl rfl
  · rename_i t ht
    split
    · rename_i hr
      exact .inr ⟨⟨t.func, by simp [kind, ht, hr]⟩, _, rfl⟩
    · exact .inl rfl

lemma rearms_kind (addr : ℕ → ℕ) (l : List ℕ) (j : ℕ) : (l.foldl (rearm addr) m).kind j = m.kind j := by
  induction l generalizing m with
  | nil => rfl
  | cons i is ih => rw [List.foldl_cons, ih, rearm_kind]

lemma rearm_weight {i : ℕ} (h : ∀ g, m.kind i = some (g, true) → w g = 0) :
    (m.rearm addr i).weight w = m.weight w := by
  have hweigh : (m.rearm addr i).weigh w = m.weigh w := by
    funext j
    rw [weigh_eq_kind, weigh_eq_kind, rearm_kind]
  unfold weight
  rw [hweigh]
  rcases rearm_timers (m := m) addr i with ht | ⟨⟨g, hg⟩, lt, ht⟩
  · rw [ht]
  · rw [ht, OrderedSet.sum_insert_of_zero (by simp [weigh_eq_kind, hg, h g hg])]

lemma rearms_weight (l : List ℕ) (h : ∀ i ∈ l, ∀ g, m.kind i = some (g, true) → w g = 0) :
    (l.foldl (rearm addr) m).weight w = m.weight w := by
  induction l generalizing m with
  | nil => rfl
  | cons i is ih =>
      rw [List.foldl_cons, ih, rearm_weight (h i List.mem_cons_self)]
      intro j hj g hg
      rw [rearm_kind] at hg
      exact h j (List.mem_cons_of_mem _ hj) g hg

lemma rearms_timers (l : List ℕ) {j : ℕ} :
    (j ∈ m.timers → j ∈ (l.foldl (rearm addr) m).timers) ∧
      (j ∈ (l.foldl (rearm addr) m).timers → j ∈ m.timers ∨ j ∈ l) := by
  induction l generalizing m with
  | nil => exact ⟨id, .inl⟩
  | cons i is ih =>
      rw [List.foldl_cons]
      obtain ⟨hin, hout⟩ := ih (m := m.rearm addr i)
      rcases rearm_timers (m := m) addr i with ht | ⟨-, lt, ht⟩
      · rw [ht] at hin hout
        exact ⟨hin, fun hj => (hout hj).imp_right (List.mem_cons_of_mem _)⟩
      · rw [ht] at hin hout
        refine ⟨fun hj => hin (OrderedSet.mem_insert_of_mem hj), fun hj => ?_⟩
        rcases hout hj with hj | hj
        · rcases OrderedSet.eq_or_mem_of_mem_insert hj with rfl | hj
          · exact .inr List.mem_cons_self
          · exact .inl hj
        · exact .inr (List.mem_cons_of_mem _ hj)

lemma sweep_mem (now : ℕ) {l : List ℕ} {j : ℕ} :
    j ∈ l ↔ j ∈ (m.sweep now l).1 ∨ j ∈ (m.sweep now l).2 := by
  induction l with
  | nil => simp [sweep]
  | cons i is ih =>
      simp only [sweep]
      split <;> simp only [List.mem_cons, ih] <;> tauto

lemma sweep_sum (f : ℕ → ℕ) (now : ℕ) (l : List ℕ) :
    ((m.sweep now l).1.map f).sum + ((m.sweep now l).2.map f).sum = (l.map f).sum := by
  induction l with
  | nil => rfl
  | cons i is ih =>
      simp only [sweep, List.map_cons, List.sum_cons]
      split <;> simp only [List.map_cons, List.sum_cons] <;> omega

lemma sum_funcs (l : List ℕ) :
    ((l.filterMap fun i => (m.obj i).map Timer.func).map w).sum = (l.map (m.weigh w)).sum := by
  induction l with
  | nil => rfl
  | cons i is ih => cases h : m.obj i <;> simp [weigh, h, ih]

/-- **A sweep moves functions from the set to the list**, as far as functions of recurring timers,
which stay in the set as well, do not count. -/
theorem weight_getExpiredFuncs (addr : ℕ → ℕ) (now : ℕ)
    (h : m.All fun g r => r = true → w g = 0) :
    (m.getExpiredFuncs addr now).1.weight w + ((m.getExpiredFuncs addr now).2.map w).sum =
      m.weight w := by
  have hzero : ∀ i ∈ (m.sweep now m.timers).1, ∀ g, (m.keep now).kind i = some (g, true) →
      w g = 0 := by
    intro i hi g hg
    obtain ⟨t, ht, hk⟩ := Option.map_eq_some_iff.1 hg
    simp only [Prod.mk.injEq] at hk
    exact hk.1 ▸ h i ((sweep_mem now).2 (.inl hi)) t ht hk.2
  have hkeep : (m.keep now).weight w = ((m.sweep now m.timers).2.map (m.weigh w)).sum := rfl
  simp only [getExpiredFuncs]
  rw [rearms_weight _ hzero, sum_funcs, hkeep, weight, ← sweep_sum (m := m) _ now m.timers]
  omega

theorem armed_getExpiredFuncs (addr : ℕ → ℕ) (now : ℕ) {i : ℕ} {g : γ} (h : m.Armed i g) :
    (m.getExpiredFuncs addr now).1.Armed i g ∨ g ∈ (m.getExpiredFuncs addr now).2 := by
  rcases (sweep_mem (m := m) now).1 h.1 with hi | hi
  · exact .inr (List.mem_filterMap.2 ⟨i, hi, h.2⟩)
  · refine .inl ⟨(rearms_timers _).1 hi, ?_⟩
    have hk := rearms_kind (m := m.keep now) addr (m.sweep now m.timers).1 i
    obtain ⟨t, ht, hg⟩ := Option.map_eq_some_iff.1 h.2
    have hkeep : (m.keep now).kind i = some (g, t.recurring) := by simp [kind, keep, ht, hg]
    have hk' : (m.getExpiredFuncs addr now).1.kind i = some (g, t.recurring) := hk.trans hkeep
    obtain ⟨t', ht', hg'⟩ := Option.map_eq_some_iff.1 hk'
    simp only [Prod.mk.injEq] at hg'
    rw [ht', Option.map_some, hg'.1]

theorem all_getExpiredFuncs (addr : ℕ → ℕ) (now : ℕ) (h : m.All q) :
    (m.getExpiredFuncs addr now).1.All q := by
  intro i hi t ht
  have hmem : i ∈ m.timers := by
    rcases (rearms_timers _).2 hi with hi | hi
    · exact (sweep_mem now).2 (.inr hi)
    · exact (sweep_mem now).2 (.inl hi)
  have hk := rearms_kind (m := m.keep now) addr (m.sweep now m.timers).1 i
  obtain ⟨u, hu⟩ := Option.isSome_iff_exists.1 (m.made i hmem)
  have hkt : (m.getExpiredFuncs addr now).1.kind i = some (t.func, t.recurring) := by
    simp [kind, ht]
  have hku : (m.keep now).kind i = some (u.func, u.recurring) := by simp [kind, keep, hu]
  have heq := hkt.symm.trans (hk.trans hku)
  simp only [Option.some.injEq, Prod.mk.injEq] at heq
  rw [heq.1, heq.2]
  exact h i hmem u hu

theorem getExpiredFuncs_nil {m' : TimerManager γ} {now : ℕ} {gs : List γ} (h : m.timers = [])
    (hexp : m.getExpiredFuncs addr now = (m', gs)) : m'.timers = [] ∧ gs = [] := by
  have hsweep : m.sweep now m.timers = ([], []) := by rw [h]; rfl
  simp only [getExpiredFuncs, hsweep, List.foldl_nil, List.filterMap_nil, Prod.mk.injEq] at hexp
  obtain ⟨rfl, rfl⟩ := hexp
  exact ⟨by simp [keep, hsweep], rfl⟩

/-! ### The functions of the objects -/

lemma func_addTimer {i : ℕ} {g : γ} (h : (m.obj i).map Timer.func = some g) :
    ((m.addTimer addr t).1.obj i).map Timer.func = some g := by
  obtain ⟨u, hu, rfl⟩ := Option.map_eq_some_iff.1 h
  have hi : i ≠ m.fresh := (m.below i u hu).ne
  simp [addTimer, insert, make, Function.update_of_ne hi, hu]

lemma func_addTimer_self : ((m.addTimer addr t).1.obj m.fresh).map Timer.func = some t.func := by
  simp [addTimer, insert, make]

lemma func_of_addTimer {i : ℕ} {g : γ} (h : ((m.addTimer addr t).1.obj i).map Timer.func = some g) :
    (m.obj i).map Timer.func = some g ∨ g = t.func := by
  by_cases hi : i = m.fresh
  · rw [hi, func_addTimer_self] at h
    exact .inr (Option.some.inj h).symm
  · exact .inl (by simpa [addTimer, insert, make, Function.update_of_ne hi] using h)

lemma func_eq_kind (i : ℕ) : (m.obj i).map Timer.func = (m.kind i).map Prod.fst := by
  simp [kind, Function.comp_def]

lemma func_getExpiredFuncs (addr : ℕ → ℕ) (now i : ℕ) :
    ((m.getExpiredFuncs addr now).1.obj i).map Timer.func = (m.obj i).map Timer.func := by
  have hk := rearms_kind (m := m.keep now) addr (m.sweep now m.timers).1 i
  rw [func_eq_kind, func_eq_kind]
  exact congrArg (Option.map Prod.fst) hk

lemma func_of_mem_getExpiredFuncs (addr : ℕ → ℕ) (now : ℕ) {g : γ}
    (h : g ∈ (m.getExpiredFuncs addr now).2) :
    ∃ i, (m.obj i).map Timer.func = some g := by
  obtain ⟨i, -, hi⟩ := List.mem_filterMap.1 h
  exact ⟨i, hi⟩

end Changes

end TimerManager

end Eva01
