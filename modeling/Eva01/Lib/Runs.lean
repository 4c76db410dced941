import Mathlib

/-!
Machines given by a partial step function, over any type of states and of actions.

`run` executes a list of actions and is what a concrete run is computed with. `Reach` is the set
of states a machine gets to when every step is taken from a state that meets a condition `G` on
the state and the action; with `Free` for `G` these are all reachable states. An invariant is
proved once for the start and once for a step (`Reach.inv`), and a computed run is turned into a
reachable state by `reach_of_run`. A machine with nothing to choose may be observed at some of its
states only; `Until` is a run from one to the next, and `Reach.observed` the invariant rule for them.
How long a run can be is bounded by a potential from which its steps are paid (`run_potential`).

Calls made one after the other, each of which can fail, are a fold in `Except`; they are all made if
each keeps what the next one needs (`exists_foldlM_eq_ok`).

Threads that are not modelled one by one are a list of the calls under way, of which any one goes
on (`mem_eraseIdx`, `count_eraseIdx`). A machine that keeps a history of what happened has
invariants of the form "every record is one that the records before it allow"; `Justified` says so,
and is kept by appending such records.

The last section is about a quantity summed over the components of an indexed family, one of
which is replaced: the shape of every count over the threads of a machine in which one thread
takes a step.
-/

namespace Eva01.Lib.Runs

variable {S A : Type*}

/-! ### Runs -/

/-- The state after a list of actions, each taken only where `ok` allows it; `none` as soon as
one of them is not allowed or not enabled. -/
def run (step : S → A → Option S) (ok : S → A → Bool) : S → List A → Option S
  | s, [] => some s
  | s, a :: as => if ok s a then (step s a).bind fun s' => run step ok s' as else none

theorem run_append (step : S → A → Option S) (ok : S → A → Bool) (s : S) (as bs : List A) :
    run step ok s (as ++ bs) = (run step ok s as).bind fun s' => run step ok s' bs := by
  induction as generalizing s with
  | nil => rfl
  | cons a as ih =>
      simp only [List.cons_append, run]
      split
      · simp only [ih, Option.bind_assoc]
      · rfl

/-- The states reached from `s₀` by steps that are all taken where `G` holds. -/
inductive Reach (step : S → A → Option S) (G : S → A → Prop) (s₀ : S) : S → Prop
  | refl : Reach step G s₀ s₀
  | tail {s s' : S} {a : A} :
      Reach step G s₀ s → G s a → step s a = some s' → Reach step G s₀ s'

/-- No condition on the steps. -/
def Free (_ : S) (_ : A) : Prop := True

section Reach

variable {step : S → A → Option S} {G H : S → A → Prop} {s₀ s s' : S}

/-- **The invariant rule.** What holds at the start and is kept by every admitted step from a
reached state holds in every reached state. -/
theorem Reach.inv {P : S → Prop} (h : Reach step G s₀ s) (h₀ : P s₀)
    (hstep : ∀ {s s' : S} {a : A}, Reach step G s₀ s → P s → G s a → step s a = some s' → P s') :
    P s := by
  induction h with
  | refl => exact h₀
  | tail hr hg hs ih => exact hstep hr ih hg hs

theorem Reach.mono (hGH : ∀ s a, G s a → H s a) (h : Reach step G s₀ s) :
    Reach step H s₀ s := by
  induction h with
  | refl => exact .refl
  | tail _ hg hs ih => exact ih.tail (hGH _ _ hg) hs

theorem Reach.trans (h₁ : Reach step G s₀ s) (h₂ : Reach step G s s') : Reach step G s₀ s' := by
  induction h₂ with
  | refl => exact h₁
  | tail _ hg hs ih => exact ih.tail hg hs

theorem reach_of_run {ok : S → A → Bool} (hok : ∀ s a, ok s a = true → G s a) {as : List A}
    (h : run step ok s as = some s') : Reach step G s s' := by
  induction as generalizing s with
  | nil =>
      simp only [run, Option.some.injEq] at h
      exact h ▸ .refl
  | cons a as ih =>
      simp only [run] at h
      split at h
      · rename_i hg
        obtain ⟨t, ht, hrest⟩ := Option.bind_eq_some_iff.1 h
        exact (Reach.refl.tail (hok _ _ hg) ht).trans (ih hrest)
      · cases h

/-- **The potential rule.** If every step from a state with `P` keeps `P` and pays its cost from the
potential `m`, to which it may bring a gift, then so does a run. -/
theorem run_potential {ok : S → A → Bool} {P : S → Prop} (m : S → ℕ) (cost gift : A → ℕ)
    (hstep : ∀ {s s' : S} {a : A}, P s → ok s a = true → step s a = some s' →
      P s' ∧ m s' + cost a ≤ m s + gift a)
    {as : List A} (h₀ : P s) (h : run step ok s as = some s') :
    P s' ∧ m s' + (as.map cost).sum ≤ m s + (as.map gift).sum := by
  induction as generalizing s with
  | nil =>
      simp only [run, Option.some.injEq] at h
      subst h
      exact ⟨h₀, le_rfl⟩
  | cons a as ih =>
      simp only [run] at h
      split at h
      · rename_i hg
        obtain ⟨t, ht, hrest⟩ := Option.bind_eq_some_iff.1 h
        obtain ⟨hP, hpay⟩ := hstep h₀ hg ht
        obtain ⟨hP', hpay'⟩ := ih hP hrest
        simp only [List.map_cons, List.sum_cons]
        exact ⟨hP', by omega⟩
      · cases h

theorem exists_reach_of_run {ok : S → A → Bool} (hok : ∀ s a, ok s a = true → G s a)
    {as : List A} {p : S → Bool} (h : (run step ok s as).any p = true) :
    ∃ s', Reach step G s s' ∧ p s' = true := by
  cases hrun : run step ok s as with
  | none => simp [hrun] at h
  | some s' => exact ⟨s', reach_of_run hok hrun, by simpa [hrun] using h⟩

end Reach

/-! ### Machines with nothing to choose -/

section Until

variable {step : S → Unit → Option S} {stop : S → Prop} {G : S → Unit → Prop} {s₀ s s' t : S}

/-- The machine runs from `s` to `t`, the first state in which it is observed. -/
inductive Until (step : S → Unit → Option S) (stop : S → Prop) : S → S → Prop
  | refl {s : S} : stop s → Until step stop s s
  | head {s s' t : S} :
      ¬ stop s → step s () = some s' → Until step stop s' t → Until step stop s t

theorem Until.eq (h : Until step stop s t) (hs : stop s) : t = s := by
  cases h with
  | refl _ => rfl
  | head hn _ _ => exact absurd hs hn

theorem Until.reach (h : Until step stop s t) (hG : ∀ s, ¬ stop s → G s ())
    (hr : Reach step G s₀ s) : Reach step G s₀ t := by
  induction h with
  | refl _ => exact hr
  | head hn hs _ ih => exact ih (hr.tail (hG _ hn) hs)

/-- **The invariant rule for observed states.** What holds in the first observed state, and again in
the next one after every admitted step from an observed state, holds in every observed state. -/
theorem Reach.observed {P : S → Prop} (h : Reach step G s₀ s)
    (h₀ : ∃ t, Until step stop s₀ t ∧ P t)
    (hstep : ∀ {s s' : S}, stop s → P s → G s () → step s () = some s' →
      ∃ t, Until step stop s' t ∧ P t) (hs : stop s) : P s := by
  -- between two observed states, the next one is known already
  have hnext : ∃ t, Until step stop s t ∧ P t := by
    refine h.inv (P := fun s => ∃ t, Until step stop s t ∧ P t) h₀ ?_
    rintro s s' a - ⟨t, hst, ht⟩ hG hss'
    cases hst with
    | refl hstop => exact hstep hstop ht hG hss'
    | head _ hs₁ hst =>
      cases hs₁.symm.trans hss'
      exact ⟨t, hst, ht⟩
  obtain ⟨t, hst, ht⟩ := hnext
  rwa [hst.eq hs] at ht

end Until

/-! ### Calls that can fail -/

section Fold

variable {ε B : Type*} {f : S → A → Except ε S} {s s' : S} {a : A} {as : List A}

theorem map_eq_ok {x : Except ε A} {g : A → B} {b : B} :
    x.map g = .ok b ↔ ∃ a, x = .ok a ∧ g a = b := by
  cases x <;> simp [Except.map]

theorem foldlM_cons_eq_ok :
    (a :: as).foldlM f s = .ok s' ↔ ∃ s₁, f s a = .ok s₁ ∧ as.foldlM f s₁ = .ok s' := by
  rw [List.foldlM_cons]
  cases h : f s a <;> simp [Bind.bind, Except.bind]

theorem exists_foldlM_eq_ok {P : S → Prop} (h : P s)
    (hstep : ∀ {s : S} {a : A}, P s → a ∈ as → ∃ s', f s a = .ok s' ∧ P s') :
    ∃ s', as.foldlM f s = .ok s' ∧ P s' := by
  induction as generalizing s with
  | nil => exact ⟨s, rfl, h⟩
  | cons a as ih =>
    obtain ⟨s₁, hs₁, h₁⟩ := hstep h List.mem_cons_self
    obtain ⟨s', hs', h'⟩ := ih h₁ fun h ha => hstep h (List.mem_cons_of_mem _ ha)
    exact ⟨s', foldlM_cons_eq_ok.2 ⟨s₁, hs₁, hs'⟩, h'⟩

end Fold

/-! ### Calls under way -/

theorem mem_eraseIdx {C : Type*} {calls : List C} {k : ℕ} {c d : C} (hk : calls[k]? = some c)
    (hd : d ≠ c) : d ∈ calls.eraseIdx k ↔ d ∈ calls := by
  rw [List.mem_eraseIdx_iff_getElem?, List.mem_iff_getElem?]
  constructor
  · rintro ⟨n, -, hn⟩
    exact ⟨n, hn⟩
  · rintro ⟨n, hn⟩
    refine ⟨n, ?_, hn⟩
    rintro rfl
    exact hd (Option.some.inj (hn.symm.trans hk))

theorem count_eraseIdx {C : Type*} [DecidableEq C] {calls : List C} {k : ℕ} {c d : C}
    (hk : calls[k]? = some c) (hd : d ≠ c) : (calls.eraseIdx k).count d = calls.count d := by
  obtain ⟨hlt, rfl⟩ := List.getElem?_eq_some_iff.mp hk
  rw [← (List.getElem_cons_eraseIdx_perm hlt).count_eq, List.count_cons_of_ne hd.symm]

/-! ### Histories -/

section Histories

variable {R : Type*} {P Q : List R → R → Prop} {log ext : List R} {r : R}

/-- Every record of a history is one that `P` allows after the records before it. -/
def Justified (P : List R → R → Prop) (log : List R) : Prop :=
  ∀ before r after, log = before ++ r :: after → P before r

theorem Justified.nil : Justified P [] := fun before r after h => by simp at h

theorem Justified.append (h : Justified P log)
    (hext : ∀ mid r after, ext = mid ++ r :: after → P (log ++ mid) r) :
    Justified P (log ++ ext) := by
  intro before r after heq
  rcases List.append_eq_append_iff.1 heq with ⟨mid, rfl, hmid⟩ | ⟨mid, hlog, hmid⟩
  · exact hext mid r after hmid
  · cases mid with
    | nil => simpa [hlog] using hext [] r after hmid.symm
    | cons x mid =>
        obtain ⟨rfl, rfl⟩ := List.cons.inj hmid
        exact h before r mid hlog

theorem Justified.snoc (h : Justified P log) (hr : P log r) : Justified P (log ++ [r]) := by
  refine h.append fun mid r' after heq => ?_
  rcases List.cons_eq_append_iff.1 heq with ⟨rfl, heq⟩ | ⟨mid', -, hnil⟩
  · obtain ⟨rfl, -⟩ := List.cons.inj heq
    simpa using hr
  · simp at hnil

theorem Justified.imp (h : Justified P log) (hPQ : ∀ before, ∀ r ∈ log, P before r → Q before r) :
    Justified Q log := fun before r after heq =>
  hPQ before r (by simp [heq]) (h before r after heq)

end Histories

/-! ### Sums over a family with one component replaced -/

section Sums

variable {ι : Type*} [Fintype ι] [DecidableEq ι] {f f' : ι → ℕ}

theorem sum_changed (f f' : ι → ℕ) (i : ι) (h : ∀ j, j ≠ i → f' j = f j) :
    ∑ j, f' j + f i = ∑ j, f j + f' i := by
  have hrest : ∑ j ∈ Finset.univ.erase i, f' j = ∑ j ∈ Finset.univ.erase i, f j :=
    Finset.sum_congr rfl fun j hj => h j (Finset.ne_of_mem_erase hj)
  rw [← Finset.add_sum_erase _ f' (Finset.mem_univ i), ← Finset.add_sum_erase _ f (Finset.mem_univ i),
    hrest]
  omega

omit [DecidableEq ι] in
theorem le_sum (i : ι) : f i ≤ ∑ j, f j :=
  Finset.single_le_sum (fun _ _ => Nat.zero_le _) (Finset.mem_univ i)

theorem add_le_sum {i j : ι} (h : i ≠ j) : f i + f j ≤ ∑ k, f k := by
  rw [← Finset.add_sum_erase _ f (Finset.mem_univ i)]
  have hj : f j ≤ ∑ k ∈ Finset.univ.erase i, f k :=
    Finset.single_le_sum (fun _ _ => Nat.zero_le _)
      (Finset.mem_erase.2 ⟨h.symm, Finset.mem_univ j⟩)
  omega

theorem sum_add_le (h : ∀ j, f j ≤ f' j) (i : ι) : ∑ j, f j + f' i ≤ ∑ j, f' j + f i := by
  have hrest : ∑ j ∈ Finset.univ.erase i, f j ≤ ∑ j ∈ Finset.univ.erase i, f' j :=
    Finset.sum_le_sum fun j _ => h j
  rw [← Finset.add_sum_erase _ f (Finset.mem_univ i), ← Finset.add_sum_erase _ f' (Finset.mem_univ i)]
  omega

end Sums

end Eva01.Lib.Runs
