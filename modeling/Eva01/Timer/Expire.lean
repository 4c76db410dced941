import Eva01.Timer.Calls

/-!
`getExpiredFuncs` as its two loops: the first walks `m_timers` and erases what is due on the way,
the second writes new deadlines to the recurring timers it took out and puts them back.

`TimerManager.getExpiredFuncs` says what the section comes to; here its loops are followed with the
iterator and the two vectors they push to, and the two are the same (`expireInto_eq`). A call
collects exactly the timers that are due, once and in the order of their deadlines, and leaves the
others and the recurring ones, these one period later (`collects_exactly`). The walk is over the set
as it was found, so a recurring timer that is due again at once waits for the next call.
-/

namespace Eva01.TimerManager

open Lib

variable {γ : Type*}

/-! ### The loops -/

/-- `timer->m_func` -/
def funcOf (m : TimerManager γ) (i : ℕ) : Option γ := (m.obj i).map Timer.func

/-- What the first loop has done: the timers it has gone past, `funcs` and `expired_timers`. -/
structure Walk (γ : Type*) where
  passed : List ℕ := []
  funcs : List γ
  expired : List ℕ := []

/-- The first loop, from an iterator to the end of the set. -/
def walk (m : TimerManager γ) (now : ℕ) (s : Walk γ) : List ℕ → Walk γ
  | [] => s
  | i :: rest =>
      if m.nextOf i ≤ now then
        m.walk now { s with funcs := s.funcs ++ (m.funcOf i).toList, expired := s.expired ++ [i] } rest
      else m.walk now { s with passed := s.passed ++ [i] } rest

variable {addr : ℕ → ℕ} {m : TimerManager γ} {now : ℕ} {funcs : List γ}

lemma walk_eq (s : Walk γ) (l : List ℕ) :
    m.walk now s l =
      { passed := s.passed ++ (m.sweep now l).2
        funcs := s.funcs ++ (m.sweep now l).1.filterMap m.funcOf
        expired := s.expired ++ (m.sweep now l).1 } := by
  induction l generalizing s with
  | nil => simp [walk, sweep]
  | cons i rest ih =>
      simp only [walk, sweep]
      split
      · rw [ih]
        cases hf : m.funcOf i <;> simp [hf]
      · rw [ih]
        simp

/-- A subset of the timers, as the set. -/
def restrict (m : TimerManager γ) (l : List ℕ) (h : ∀ i ∈ l, i ∈ m.timers) : TimerManager γ where
  obj := m.obj
  fresh := m.fresh
  timers := l
  below := m.below
  made i hi := m.made i (h i hi)

lemma passed_subset (m : TimerManager γ) (now : ℕ) (funcs : List γ) :
    ∀ i ∈ (m.walk now { funcs := funcs } m.timers).passed, i ∈ m.timers := by
  intro i hi
  rw [walk_eq] at hi
  exact (sweep_mem now).2 (.inr (by simpa using hi))

/-- `getExpiredFuncs(funcs)` at the clock reading `now`. -/
def expireInto (addr : ℕ → ℕ) (m : TimerManager γ) (now : ℕ) (funcs : List γ) :
    TimerManager γ × List γ :=
  if !m.hasTimers then (m, funcs)
  else
    let s := m.walk now { funcs := funcs } m.timers
    (s.expired.foldl (rearm addr) (m.restrict s.passed (passed_subset m now funcs)), s.funcs)

theorem expireInto_eq (addr : ℕ → ℕ) (m : TimerManager γ) (now : ℕ) (funcs : List γ) :
    m.expireInto addr now funcs =
      ((m.getExpiredFuncs addr now).1, funcs ++ (m.getExpiredFuncs addr now).2) := by
  unfold expireInto
  split
  · rename_i hnone
    have htimers : m.timers = [] := by simpa [hasTimers] using hnone
    obtain ⟨obj, fresh, timers, below, made⟩ := m
    subst htimers
    simp [getExpiredFuncs, sweep, keep]
  · simp only [walk_eq, List.nil_append]
    rfl

/-! ### The objects -/

/-- An expired timer with its next deadline: `timer->m_next += timer->m_period`, if it recurs. -/
def Timer.rearmed (t : Timer γ) : Timer γ :=
  if t.recurring then { t with next := u64 (t.next + t.period) } else t

lemma obj_rearm (i j : ℕ) :
    (m.rearm addr i).obj j = if j = i then (m.obj j).map Timer.rearmed else m.obj j := by
  unfold rearm
  split
  · rename_i h
    split
    · subst j
      simp [h]
    · rfl
  · rename_i t h
    split
    · rename_i hr
      by_cases hj : j = i
      · subst j
        simp [insert, h, Timer.rearmed, hr]
      · simp [insert, hj]
    · rename_i hr
      split
      · subst j
        simp [h, Timer.rearmed, hr]
      · rfl

/-- Rearming different timers writes the deadline of each of them once. -/
lemma obj_rearms {l : List ℕ} (hl : l.Nodup) (j : ℕ) :
    (l.foldl (rearm addr) m).obj j = if j ∈ l then (m.obj j).map Timer.rearmed else m.obj j := by
  induction l generalizing m with
  | nil => rfl
  | cons i is ih =>
      obtain ⟨hi, his⟩ := List.nodup_cons.1 hl
      rw [List.foldl_cons, ih his, obj_rearm]
      by_cases hji : j = i
      · subst j
        simp [hi]
      · simp [hji]

lemma map_funcOf {l : List ℕ} (h : ∀ i ∈ l, i ∈ m.timers) :
    (l.filterMap m.funcOf).map some = l.map m.funcOf := by
  induction l with
  | nil => rfl
  | cons i is ih =>
      obtain ⟨t, ht⟩ := Option.isSome_iff_exists.1 (m.made i (h i List.mem_cons_self))
      have hf : m.funcOf i = some t.func := by simp [funcOf, ht]
      rw [List.filterMap_cons_some hf, List.map_cons, List.map_cons, hf,
        ih fun j hj => h j (List.mem_cons_of_mem _ hj)]

/-- **A call of `getExpiredFuncs` is exact.** On a set that is in order, whatever it holds: there is
a list of the timers that are due, without repetition and in the order of their deadlines, whose
functions are what the call appends; the set is left with what is not due and with the due timers
that recur, none of them twice; and no object has changed but these, by one period. -/
theorem collects_exactly (hinj : Function.Injective addr) (ho : InOrder addr m) (now : ℕ)
    (funcs : List γ) :
    ∃ due : List ℕ, due.Nodup ∧ (∀ i, i ∈ due ↔ i ∈ m.timers ∧ m.nextOf i ≤ now) ∧
      due.Pairwise (fun a b => m.nextOf a ≤ m.nextOf b) ∧
      (m.expireInto addr now funcs).2.map some = funcs.map some ++ due.map m.funcOf ∧
      (m.expireInto addr now funcs).1.timers.Nodup ∧
      (∀ j, j ∈ (m.expireInto addr now funcs).1.timers ↔
        (j ∈ m.timers ∧ now < m.nextOf j) ∨ (j ∈ due ∧ m.recurs j = true)) ∧
      (∀ j, (m.expireInto addr now funcs).1.obj j =
        if j ∈ due then (m.obj j).map Timer.rearmed else m.obj j) := by
  have hsorted : (m.expired now).Pairwise (fun a b => m.nextOf a ≤ m.nextOf b) := by
    rw [expired_eq]
    refine (List.Pairwise.filter _ ho).imp fun {a b} hab => ?_
    have := cmp_iff.1 hab
    omega
  refine ⟨m.expired now, ho.expired_nodup hinj now, fun i => mem_expired, hsorted, ?_⟩
  rw [expireInto_eq]
  refine ⟨?_, (ho.getExpiredFuncs hinj now).nodup hinj, fun j => ?_, fun j => ?_⟩
  · rw [List.map_append]
    congr 1
    exact map_funcOf fun i hi => (mem_expired.1 hi).1
  · rw [mem_getExpiredFuncs hinj, mem_expired]
    by_cases hd : now < m.nextOf j
    · simp [hd]
    · have hle : m.nextOf j ≤ now := by omega
      simp [hd, hle]
  · exact obj_rearms (m := m.keep now) (ho.expired_nodup hinj now) j

/-- The timers `0` (one-shot, late), `1` (recurring with period 0, due) and `2` (not due). -/
def mixed : TimerManager ℕ :=
  let m₀ := (({} : TimerManager ℕ).addTimer id ⟨5, 5, 10, false⟩).1
  let m₁ := (m₀.addTimer id ⟨0, 7, 11, true⟩).1
  (m₁.addTimer id ⟨9, 9, 12, false⟩).1

theorem collects_exactly_mixed :
    ∃ due : List ℕ, due.Nodup ∧ (∀ i, i ∈ due ↔ i ∈ mixed.timers ∧ mixed.nextOf i ≤ 8) ∧
      (mixed.expireInto id 8 [99]).2.map some = [some 99] ++ due.map mixed.funcOf ∧
      (mixed.expireInto id 8 [99]).2 = [99, 10, 11] ∧
      (mixed.expireInto id 8 [99]).1.timers = [1, 2] := by
  have ho : InOrder id mixed := by
    refine InOrder.addTimer Function.injective_id (InOrder.addTimer Function.injective_id
      (InOrder.addTimer Function.injective_id ?_ _) _) _
    exact List.Pairwise.nil
  obtain ⟨due, hn, hdue, -, hfuncs, -⟩ := collects_exactly Function.injective_id ho 8 [99]
  exact ⟨due, hn, hdue, hfuncs, by decide +kernel, by decide +kernel⟩

end Eva01.TimerManager
