import Eva01.Timer.Expire
import Eva01.Timer.Recurring

/-!
A timer that does not recur and that nobody refreshes.

Its deadline stays what it was when the timer was made, so no call of `getExpiredFuncs` collects it
at an earlier reading (`OneShot`).
-/

namespace Eva01.TimerManager

open Lib Lib.Runs

variable {γ : Type*} {addr : ℕ → ℕ} {s s' : Threads γ} {a : Act γ} {T next : ℕ}

/-- The timer `T` has the deadline `next`, and has not been collected before it. -/
structure OneShot (T next : ℕ) (s : Threads γ) : Prop where
  obj : ∃ t, s.mgr.obj T = some t ∧ t.next = next ∧ t.recurring = false
  late : ∀ now, .collect T now ∈ s.log → next ≤ now

lemma OneShot.lt_fresh (h : OneShot T next s) : T < s.mgr.fresh := by
  obtain ⟨t, ht, -⟩ := h.obj
  exact s.mgr.below T t ht

lemma OneShot.nextOf (h : OneShot T next s) : s.mgr.nextOf T = next := by
  obtain ⟨t, ht, hnext, -⟩ := h.obj
  simp [TimerManager.nextOf, ht, hnext]

lemma obj_rearms_once {m : TimerManager γ} {t : Timer γ} (ht : m.obj T = some t)
    (hr : t.recurring = false) (l : List ℕ) : (l.foldl (rearm addr) m).obj T = some t := by
  induction l generalizing m with
  | nil => exact ht
  | cons i is ih =>
    refine ih ?_
    rw [obj_rearm]
    split
    · simp [ht, Timer.rearmed, hr]
    · exact ht

theorem OneShot.step (h : OneShot T next s) (ha : ∀ now, a ≠ .refresh T now)
    (hs : Stepped addr s a s') : OneShot T next s' := by
  obtain ⟨t, ht, hnext, hr⟩ := h.obj
  have hlt := h.lt_fresh
  cases hs with
  | addTimer => exact ⟨⟨t, (Function.update_of_ne hlt.ne _ _).trans ht, hnext, hr⟩, h.late⟩
  | cancel | refreshFails =>
    exact ⟨⟨t, ht, hnext, hr⟩, fun now hlog => h.late now (by simpa using hlog)⟩
  | @refresh i now hk hf =>
    have hi : T ≠ i := by
      rintro rfl
      exact ha now rfl
    exact ⟨⟨t, (Function.update_of_ne hi _ _).trans ht, hnext, hr⟩,
      fun now hlog => h.late now (by simpa using hlog)⟩
  | getExpiredFuncs | look | lookEmpty => exact ⟨⟨t, ht, hnext, hr⟩, h.late⟩
  | insert => exact ⟨⟨t, by rwa [addTimerPtr_obj], hnext, hr⟩, h.late⟩
  | @collect k now hc =>
    have hkeep : (s.mgr.keep now).obj T = some t := ht
    refine ⟨⟨t, obj_rearms_once hkeep hr _, hnext, hr⟩, fun n hlog => ?_⟩
    rcases List.mem_append.1 hlog with hlog | hlog
    · exact h.late n hlog
    · obtain ⟨i, hi, heq⟩ := List.mem_map.1 hlog
      obtain ⟨rfl, rfl⟩ := Record.collect.inj heq
      exact h.nextOf ▸ (mem_expired.1 hi).2

lemma OneShot.make (hc : Collects s) {now period : ℕ} {g : γ}
    (hs : s.step addr (.addTimer now period g false) = some s') :
    OneShot s.mgr.fresh (u64 (now + period)) s' := by
  cases hs
  exact ⟨⟨_, Function.update_self _ _ _, rfl, rfl⟩, fun n hlog => absurd (hc _ n hlog) (lt_irrefl _)⟩

end Eva01.TimerManager
