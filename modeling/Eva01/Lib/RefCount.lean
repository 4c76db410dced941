import Eva01.Lib.Runs
import Mathlib

/-!
Counted references: objects that exist as long as somebody refers to them.

The references are in slots, a finite family of places each of which refers to one object or to
none, and in whatever else the user of this adds. `refs` counts those in slots, and `refs_update`
says what writing a slot changes. `Exact` says that the counts kept with the objects are the numbers
of references, and that exactly the objects with references exist. A reference that is copied counts
one more, and one that is given up one less, with the object going away with the last one. While a
reference is given up the count is by one too high; `release` and `release_last` settle that.

Types: `I` for the slots, `F` for the objects.
-/

namespace Eva01.Lib.RefCount

open Eva01.Lib.Runs

variable {I F : Type*} [DecidableEq F]

/-! ### Slots -/

section Slots

variable [Fintype I] {slot : I → Option F} {i j : I} {f : F}

/-- The number of slots that refer to an object. -/
def refs (slot : I → Option F) (f : F) : ℕ := ∑ i, if slot i = some f then 1 else 0

theorem refs_update [DecidableEq I] (slot : I → Option F) (i : I) (v : Option F) (f : F) :
    refs (Function.update slot i v) f + (if slot i = some f then 1 else 0) =
      refs slot f + if v = some f then 1 else 0 := by
  have hsum := sum_changed (fun j => if slot j = some f then 1 else 0)
    (fun j => if Function.update slot i v j = some f then 1 else 0) i fun j hj => by
      rw [Function.update_of_ne hj]
  simpa only [refs, Function.update_self] using hsum

theorem refs_pos (h : slot i = some f) : 0 < refs slot f := by
  have hle := le_sum (f := fun j => if slot j = some f then 1 else 0) i
  simp only [h, if_true] at hle
  exact hle

theorem two_le_refs [DecidableEq I] (hij : i ≠ j) (hi : slot i = some f) (hj : slot j = some f) :
    2 ≤ refs slot f := by
  have hle := add_le_sum (f := fun j => if slot j = some f then 1 else 0) hij
  simp only [hi, hj, if_true] at hle
  exact hle

theorem refs_eq_zero (h : ∀ i, slot i ≠ some f) : refs slot f = 0 :=
  Finset.sum_eq_zero fun i _ => if_neg (h i)

theorem ne_of_refs_eq_zero (h : refs slot f = 0) (i : I) : slot i ≠ some f := by
  intro hi
  have hpos := refs_pos hi
  omega

end Slots

/-! ### Counts -/

/-- The counts are the numbers of references, and what has references exists. -/
structure Exact (alive : F → Prop) (count refs : F → ℕ) : Prop where
  count_eq : ∀ f, count f = refs f
  alive_iff : ∀ f, alive f ↔ 0 < refs f

section Counts

variable {alive alive' : F → Prop} {count refs refs' : F → ℕ} {f : F}

omit [DecidableEq F] in
theorem Exact.move (h : Exact alive count refs) (halive : ∀ g, alive' g ↔ alive g)
    (hrefs : ∀ g, refs' g = refs g) : Exact alive' count refs' where
  count_eq g := by rw [h.count_eq, hrefs]
  alive_iff g := by rw [halive, h.alive_iff, hrefs]

theorem Exact.acquire (h : Exact alive count refs) (hf : alive f)
    (halive : ∀ g, alive' g ↔ alive g)
    (hrefs : ∀ g, refs' g = refs g + if g = f then 1 else 0) :
    Exact alive' (Function.update count f (count f + 1)) refs' where
  count_eq g := by
    rw [hrefs]
    by_cases hg : g = f
    · subst hg
      rw [Function.update_self, if_pos rfl, h.count_eq]
    · rw [Function.update_of_ne hg, if_neg hg, h.count_eq, Nat.add_zero]
  alive_iff g := by
    rw [halive, h.alive_iff, hrefs]
    by_cases hg : g = f
    · subst hg
      have hpos := (h.alive_iff g).1 hf
      rw [if_pos rfl]
      omega
    · rw [if_neg hg, Nat.add_zero]

theorem Exact.release (h : Exact alive count fun g => refs g + if g = f then 1 else 0)
    (hcount : 1 < count f) : Exact alive (Function.update count f (count f - 1)) refs where
  count_eq g := by
    by_cases hg : g = f
    · subst hg
      rw [Function.update_self, h.count_eq, if_pos rfl, Nat.add_sub_cancel]
    · rw [Function.update_of_ne hg, h.count_eq, if_neg hg, Nat.add_zero]
  alive_iff g := by
    rw [h.alive_iff]
    by_cases hg : g = f
    · subst hg
      have hc := h.count_eq g
      rw [if_pos rfl] at hc ⊢
      omega
    · rw [if_neg hg, Nat.add_zero]

theorem Exact.release_last (h : Exact alive count fun g => refs g + if g = f then 1 else 0)
    (hcount : count f ≤ 1) (halive : ∀ g, alive' g ↔ alive g ∧ g ≠ f) :
    refs f = 0 ∧ Exact alive' (Function.update count f 0) refs := by
  have hzero : refs f = 0 := by
    have hc := h.count_eq f
    rw [if_pos rfl] at hc
    omega
  refine ⟨hzero, fun g => ?_, fun g => ?_⟩
  · by_cases hg : g = f
    · subst hg
      rw [Function.update_self, hzero]
    · rw [Function.update_of_ne hg, h.count_eq, if_neg hg, Nat.add_zero]
  · rw [halive, h.alive_iff]
    by_cases hg : g = f
    · subst hg
      simp [hzero]
    · rw [if_neg hg, Nat.add_zero]
      exact and_iff_left hg

theorem Exact.create (h : Exact alive count refs) (hf : ¬ alive f)
    (halive : ∀ g, alive' g ↔ alive g ∨ g = f)
    (hrefs : ∀ g, refs' g = refs g + if g = f then 1 else 0) :
    Exact alive' (Function.update count f 1) refs' where
  count_eq g := by
    rw [hrefs]
    by_cases hg : g = f
    · subst hg
      have hzero := mt (h.alive_iff g).2 hf
      rw [Function.update_self, if_pos rfl]
      omega
    · rw [Function.update_of_ne hg, if_neg hg, h.count_eq, Nat.add_zero]
  alive_iff g := by
    rw [halive, h.alive_iff, hrefs]
    by_cases hg : g = f
    · subst hg
      simp
    · simp [hg]

end Counts

end Eva01.Lib.RefCount
