import Mathlib

/-!
The operations of `std::vector` that a table indexed by small integers is made with, on lists:
`resize`, which cuts off or fills up, the size as an `int`, and what a table of pointers holds at an
index of a signed type.
-/

namespace Eva01.Lib.Vec

variable {α : Type*} {l : List α} {n i : ℕ} {v : α}

/-- `v.resize(n)`, with the value that new elements get. -/
def resize (n : ℕ) (v : α) (l : List α) : List α := l.take n ++ List.replicate (n - l.length) v

@[simp] theorem length_resize : (resize n v l).length = n := by
  simp only [resize, List.length_append, List.length_take, List.length_replicate]
  omega

theorem getElem?_resize (hl : i < l.length) (hn : i < n) : (resize n v l)[i]? = l[i]? := by
  unfold resize
  rw [List.getElem?_append_left (by simp; omega), List.getElem?_take_of_lt hn]

theorem getElem?_resize_new (hl : l.length ≤ i) (hn : i < n) : (resize n v l)[i]? = some v := by
  unfold resize
  rw [List.getElem?_append_right (by simp; omega), List.getElem?_replicate, if_pos]
  simp only [List.length_take]
  omega

theorem getElem?_of_prefix {l' : List α} (h : l <+: l') (hi : l[i]? = some v) : l'[i]? = some v := by
  obtain ⟨t, rfl⟩ := h
  rw [List.getElem?_append_left (List.getElem?_eq_some_iff.1 hi).1]
  exact hi

/-- `(int)x`, for a value of an unsigned type. -/
@[irreducible] def toInt (x : ℕ) : ℤ := if x < 2 ^ 31 then x else Int.bmod x (2 ^ 32)

theorem toInt_of_lt {x : ℕ} (h : x < 2 ^ 31) : toInt x = x := by
  unfold toInt
  rw [if_pos h]

theorem toInt_le (x : ℕ) : toInt x ≤ x := by
  unfold toInt
  split
  · exact Int.le_refl _
  · rw [Int.bmod_def]
    split <;> omega

theorem toInt_neg {x : ℕ} (h : 2 ^ 31 ≤ x) (hx : x < 2 ^ 32) : toInt x < 0 := by
  unfold toInt
  rw [if_neg (Nat.not_lt.2 h), Int.bmod_def]
  split <;> omega

/-- A value of type `int`. -/
def CInt : Type := { x : ℤ // -2 ^ 31 ≤ x ∧ x < 2 ^ 31 }

/-! ### Tables of pointers -/

section Tables

variable {β : Type*} {t : List (Option α)} {p : Option α} {i j : ℤ}

/-- What is held at an index: nothing at a negative one, or at one beyond the size. -/
def held (t : List (Option α)) (i : ℤ) : Option α := if 0 ≤ i then (t[i.toNat]?).join else none

theorem held_of_nonneg (h : 0 ≤ i) : held t i = (t[i.toNat]?).join := if_pos h

theorem held_of_le (h : t.length ≤ i.toNat) : held t i = none := by
  unfold held
  rw [List.getElem?_eq_none h]
  exact ite_self none

theorem lt_length_of_held (h : held t i = some v) : 0 ≤ i ∧ i.toNat < t.length := by
  refine ⟨?_, ?_⟩
  · by_contra hneg
    simp [held, hneg] at h
  · by_contra hle
    rw [held_of_le (Nat.not_lt.1 hle)] at h
    cases h

theorem held_set_self (h : 0 ≤ i) (hlt : i.toNat < t.length) : held (t.set i.toNat p) i = p := by
  rw [held_of_nonneg h, List.getElem?_set_self hlt]
  rfl

theorem held_set_of_ne (h : 0 ≤ i) (hne : j ≠ i) : held (t.set i.toNat p) j = held t j := by
  unfold held
  split
  · rw [List.getElem?_set_ne (by omega)]
  · rfl

theorem held_resize (h : i.toNat < n) : held (resize n none t) i = held t i := by
  unfold held
  split
  · by_cases hl : i.toNat < t.length
    · rw [getElem?_resize hl h]
    · rw [getElem?_resize_new (Nat.not_lt.1 hl) h, List.getElem?_eq_none (Nat.not_lt.1 hl)]
      rfl
  · rfl

theorem held_map {f : α → β} : held (t.map (Option.map f)) i = (held t i).map f := by
  unfold held
  split
  · rw [List.getElem?_map]
    rcases t[i.toNat]? with _ | _ | v <;> rfl
  · rfl

end Tables

end Eva01.Lib.Vec
