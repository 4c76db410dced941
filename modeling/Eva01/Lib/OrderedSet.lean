import Mathlib

/-!
A set kept as a list in the order of a comparator, as `std::set` keeps it: what is in the set is
found by comparing alone, so two elements neither of which comes before the other count as one.

The comparator is any Boolean relation. What is said about members and about sums over them needs
no more of it than that it tells different elements apart (`Trichotomous`). Under a strict order
(`StrictOrder`) the list stays in order, and searching by comparing finds exactly the members.
-/

namespace Eva01.Lib.OrderedSet

variable {α : Type*} {lt : α → α → Bool} {x y : α} {l : List α}

/-- `insert`: before the first element that comes after `x`, unless an equal one is met first. -/
def insert (lt : α → α → Bool) (x : α) : List α → List α
  | [] => [x]
  | y :: ys => if lt x y then x :: y :: ys else if lt y x then y :: insert lt x ys else y :: ys

/-- `erase`: the element that is neither before nor after `x` goes. -/
def erase (lt : α → α → Bool) (x : α) : List α → List α
  | [] => []
  | y :: ys => if lt x y then y :: ys else if lt y x then y :: erase lt x ys else ys

/-- What `erase` returns: whether the search came to an element that is neither before nor after
`x`. -/
def found (lt : α → α → Bool) (x : α) : List α → Bool
  | [] => false
  | y :: ys => if lt x y then false else if lt y x then found lt x ys else true

/-- The comparator tells different elements apart. -/
def Trichotomous (lt : α → α → Bool) : Prop := ∀ a b, lt a b = false → lt b a = false → a = b

theorem insert_perm (h : Trichotomous lt) (hx : x ∉ l) : (insert lt x l).Perm (x :: l) := by
  induction l with
  | nil => exact .refl _
  | cons y ys ih =>
      simp only [insert]
      split
      · exact .refl _
      · split
        · have hys := ih fun hm => hx (List.mem_cons_of_mem _ hm)
          exact (hys.cons y).trans (List.Perm.swap x y ys)
        · rename_i hxy hyx
          have heq : x = y := h x y (by simpa using hxy) (by simpa using hyx)
          exact absurd (heq ▸ List.mem_cons_self) hx

theorem eq_or_mem_of_mem_insert (h : y ∈ insert lt x l) : y = x ∨ y ∈ l := by
  induction l with
  | nil => simpa [insert] using h
  | cons z zs ih =>
      simp only [insert] at h
      split at h
      · exact List.mem_cons.1 h
      · split at h
        · rcases List.mem_cons.1 h with rfl | h
          · exact .inr List.mem_cons_self
          · exact (ih h).imp_right (List.mem_cons_of_mem _)
        · exact .inr h

theorem mem_insert_of_mem (h : y ∈ l) : y ∈ insert lt x l := by
  induction l with
  | nil => cases h
  | cons z zs ih =>
      simp only [insert]
      split
      · exact List.mem_cons_of_mem _ h
      · split
        · rcases List.mem_cons.1 h with rfl | h
          · exact List.mem_cons_self
          · exact List.mem_cons_of_mem _ (ih h)
        · exact h

theorem sum_insert_of_zero {w : α → ℕ} (hw : w x = 0) :
    ((insert lt x l).map w).sum = (l.map w).sum := by
  induction l with
  | nil => simp [insert, hw]
  | cons y ys ih =>
      simp only [insert]
      split
      · simp [hw]
      · split
        · simp [ih]
        · rfl

theorem erase_sublist : (erase lt x l).Sublist l := by
  induction l with
  | nil => exact .refl _
  | cons y ys ih =>
      simp only [erase]
      split
      · exact .refl _
      · split
        · exact ih.cons_cons y
        · exact List.sublist_cons_self y ys

theorem mem_erase_of_ne (h : Trichotomous lt) (hy : y ∈ l) (hne : y ≠ x) : y ∈ erase lt x l := by
  induction l with
  | nil => cases hy
  | cons z zs ih =>
      simp only [erase]
      split
      · exact hy
      · rename_i hxz
        split
        · rcases List.mem_cons.1 hy with rfl | hy
          · exact List.mem_cons_self
          · exact List.mem_cons_of_mem _ (ih hy)
        · rename_i hzx
          have heq : x = z := h x z (by simpa using hxz) (by simpa using hzx)
          exact (List.mem_cons.1 hy).resolve_left fun hyz => hne (hyz.trans heq.symm)

/-! ### Order -/

structure StrictOrder (lt : α → α → Bool) : Prop where
  irrefl : ∀ a, lt a a = false
  trans : ∀ a b c, lt a b = true → lt b c = true → lt a c = true
  tri : Trichotomous lt

/-- Each element comes before all those behind it. -/
def Sorted (lt : α → α → Bool) (l : List α) : Prop := l.Pairwise fun a b => lt a b = true

theorem StrictOrder.asymm (h : StrictOrder lt) (hxy : lt x y = true) : lt y x = false := by
  by_contra hyx
  have hxx := h.trans x y x hxy (by simpa using hyx)
  rw [h.irrefl] at hxx
  cases hxx

theorem Sorted.nodup (h : StrictOrder lt) (hl : Sorted lt l) : l.Nodup :=
  hl.imp fun {a b} hab heq => by
    rw [heq, h.irrefl] at hab
    cases hab

theorem Sorted.congr {lt' : α → α → Bool} (hl : Sorted lt l)
    (h : ∀ a ∈ l, ∀ b ∈ l, lt' a b = lt a b) : Sorted lt' l :=
  List.Pairwise.imp_of_mem (fun ha hb hab => (h _ ha _ hb).trans hab) hl

theorem mem_insert (h : Trichotomous lt) : y ∈ insert lt x l ↔ y = x ∨ y ∈ l := by
  refine ⟨eq_or_mem_of_mem_insert, ?_⟩
  rintro (rfl | hy)
  · by_cases hl : y ∈ l
    · exact mem_insert_of_mem hl
    · exact (insert_perm h hl).symm.subset List.mem_cons_self
  · exact mem_insert_of_mem hy

theorem Sorted.insert (h : StrictOrder lt) (hl : Sorted lt l) : Sorted lt (insert lt x l) := by
  induction l with
  | nil => exact List.pairwise_singleton _ _
  | cons y ys ih =>
      obtain ⟨hy, hys⟩ := List.pairwise_cons.1 hl
      simp only [OrderedSet.insert]
      split
      · rename_i hxy
        refine List.pairwise_cons.2 ⟨fun z hz => ?_, hl⟩
        rcases List.mem_cons.1 hz with rfl | hz
        · exact hxy
        · exact h.trans x y z hxy (hy z hz)
      · split
        · rename_i hyx
          refine List.pairwise_cons.2 ⟨fun z hz => ?_, ih hys⟩
          rcases eq_or_mem_of_mem_insert hz with rfl | hz
          · exact hyx
          · exact hy z hz
        · exact hl

theorem Sorted.erase (hl : Sorted lt l) : Sorted lt (erase lt x l) := hl.sublist erase_sublist

theorem found_iff (h : StrictOrder lt) (hl : Sorted lt l) : found lt x l = true ↔ x ∈ l := by
  induction l with
  | nil => simp [found]
  | cons y ys ih =>
      obtain ⟨hy, hys⟩ := List.pairwise_cons.1 hl
      simp only [found]
      split
      · -- everything in the list comes after `x`
        rename_i hxy
        refine iff_of_false (by simp) fun hx => ?_
        rcases List.mem_cons.1 hx with rfl | hx
        · rw [h.irrefl] at hxy
          cases hxy
        · rw [h.asymm (hy x hx)] at hxy
          cases hxy
      · rename_i hxy
        split
        · rename_i hyx
          rw [ih hys, List.mem_cons, or_iff_right]
          rintro rfl
          exact hxy hyx
        · rename_i hyx
          have heq : x = y := h.tri x y (by simpa using hxy) (by simpa using hyx)
          simp [heq]

theorem not_mem_erase (h : StrictOrder lt) (hl : Sorted lt l) : x ∉ erase lt x l := by
  induction l with
  | nil => exact List.not_mem_nil
  | cons y ys ih =>
      obtain ⟨hy, hys⟩ := List.pairwise_cons.1 hl
      have hne : x ∈ ys → lt y x = true := hy x
      simp only [OrderedSet.erase]
      split
      · rename_i hxy
        intro hx
        rcases List.mem_cons.1 hx with rfl | hx
        · rw [h.irrefl] at hxy
          cases hxy
        · rw [h.asymm (hne hx)] at hxy
          cases hxy
      · rename_i hxy
        split
        · rename_i hyx
          intro hx
          rcases List.mem_cons.1 hx with rfl | hx
          · exact hxy hyx
          · exact ih hys hx
        · rename_i hyx
          exact fun hx => hyx (hne hx)

theorem mem_erase (h : StrictOrder lt) (hl : Sorted lt l) :
    y ∈ erase lt x l ↔ y ∈ l ∧ y ≠ x := by
  refine ⟨fun hy => ⟨erase_sublist.subset hy, ?_⟩, fun hy => mem_erase_of_ne h.tri hy.1 hy.2⟩
  rintro rfl
  exact not_mem_erase h hl hy

end Eva01.Lib.OrderedSet
