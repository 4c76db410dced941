import Mathlib

/-!
Locks seen from two sides: a table says which thread has a lock, and the place where a thread is
says which lock it has. `Agree` says that the two are the same relation; so no two threads have one
lock. It is kept when a thread moves without a lock, takes a free one or gives back its own.
`elim_update` is about what the holder of a lock still has to do.

Types: `K` for the locks, `T` for the threads, `P` for the places.
-/

namespace Eva01.Lib.Held

variable {K T P : Type*}

/-- The table and the places agree on who has which lock. -/
def Agree (has : P → Option K) (lock : K → Option T) (pc : T → P) : Prop :=
  ∀ k t, lock k = some t ↔ has (pc t) = some k

variable {has : P → Option K} {lock : K → Option T} {pc : T → P} {k : K} {t u : T} {p : P}

theorem Agree.unique (h : Agree has lock pc) (ht : has (pc t) = some k) (hu : has (pc u) = some k) :
    u = t := by
  have hl := (h k t).2 ht
  rw [(h k u).2 hu] at hl
  exact Option.some.inj hl

theorem Agree.keep [DecidableEq T] (h : Agree has lock pc) (hp : has p = has (pc t)) :
    Agree has lock (Function.update pc t p) := by
  intro l u
  by_cases hu : u = t
  · subst hu
    rw [Function.update_self, hp]
    exact h l u
  · rw [Function.update_of_ne hu]
    exact h l u

theorem Agree.acquire [DecidableEq T] [DecidableEq K] (h : Agree has lock pc) (hfree : lock k = none)
    (ht : has (pc t) = none) (hp : has p = some k) :
    Agree has (Function.update lock k (some t)) (Function.update pc t p) := by
  intro l u
  by_cases hl : l = k
  · subst hl
    rw [Function.update_self]
    by_cases hu : u = t
    · subst hu
      rw [Function.update_self, hp]
      exact iff_of_true rfl rfl
    · rw [Function.update_of_ne hu, ← h l u, hfree]
      exact iff_of_false (fun he => hu (Option.some.inj he).symm) fun he => by cases he
  · rw [Function.update_of_ne hl]
    by_cases hu : u = t
    · subst hu
      rw [Function.update_self, hp, h l u, ht]
      exact iff_of_false (fun he => by cases he) fun he => hl (Option.some.inj he).symm
    · rw [Function.update_of_ne hu]
      exact h l u

theorem Agree.release [DecidableEq T] [DecidableEq K] (h : Agree has lock pc)
    (ht : has (pc t) = some k) (hp : has p = none) :
    Agree has (Function.update lock k none) (Function.update pc t p) := by
  intro l u
  by_cases hu : u = t
  · subst hu
    rw [Function.update_self, hp]
    refine iff_of_false (fun he => ?_) fun he => by cases he
    by_cases hl : l = k
    · subst hl
      rw [Function.update_self] at he
      cases he
    · -- the thread had one lock only
      rw [Function.update_of_ne hl, h l u, ht] at he
      exact hl (Option.some.inj he).symm
  · rw [Function.update_of_ne hu]
    by_cases hl : l = k
    · subst hl
      rw [Function.update_self]
      exact iff_of_false (fun he => by cases he) fun he => hu (h.unique ht he)
    · rw [Function.update_of_ne hl]
      exact h l u

theorem elim_update [DecidableEq T] {α : Type*} (held : Option T) (todo : P → T → List α)
    (h : held = some t → todo p t = todo (pc t) t) :
    (held.elim [] fun u => todo (Function.update pc t p u) u) =
      held.elim [] fun u => todo (pc u) u := by
  cases held with
  | none => rfl
  | some u =>
    show todo (Function.update pc t p u) u = todo (pc u) u
    by_cases hu : u = t
    · subst hu
      rw [Function.update_self, h rfl]
    · rw [Function.update_of_ne hu]

end Eva01.Lib.Held
