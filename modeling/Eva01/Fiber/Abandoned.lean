import Eva01.Fiber.Lifetime
import Mathlib

/-!
A suspended fiber that nobody else points to.

It has two pointers to itself, in the frames of `MainFunc` and `Yield` on its own stack. They are
given up by its own code only, which nobody can resume. So it stays as it is, with its stack of a
megabyte, for the rest of the run: this is what becomes of a fiber when the timer or the event that
was to wake it is dropped.
-/

namespace Eva01.Fibers.Lifetime

open Eva01.Lib.Runs
open Eva01.Lib

variable {W : Type*}

/-- The fiber is as it was, and there are no pointers to it but its own. -/
structure Lost (f : ℕ) (o : Obj) (x : Pool W) : Prop where
  obj : x.objs f = some o
  slot : ∀ i, x.slot i ≠ some f
  old : ∀ w, x.old w ≠ some f
  queue : Task.fiber f ∉ x.queue
  others : f ∉ x.others

section Lost

variable {x x' : Pool W} {f g : ℕ} {o o' : Obj} {w : W} {k : Kind} {p : Pc}

/-! What the steps are made of. -/

lemma Lost.crash (h : Lost f o x) : Lost f o x.crash := ⟨h.obj, h.slot, h.old, h.queue, h.others⟩

lemma Lost.acquire (h : Lost f o x) : Lost f o (x.acquire g) := ⟨h.obj, h.slot, h.old, h.queue, h.others⟩

lemma Lost.write (h : Lost f o x) (hg : g ≠ f) : Lost f o (x.write g o') :=
  ⟨(Function.update_of_ne hg.symm _ _).trans h.obj, h.slot, h.old, h.queue, h.others⟩

lemma Lost.release (h : Lost f o x) (hg : g ≠ f) : Lost f o (x.release g) := by
  unfold Pool.release
  split
  · exact ⟨h.obj, h.slot, h.old, h.queue, h.others⟩
  · split
    · split
      · exact h.crash
      · exact ⟨(Function.update_of_ne hg.symm _ _).trans h.obj, h.slot, h.old, h.queue, h.others⟩
    · exact h.crash

lemma Lost.ne_of_slot (h : Lost f o x) {i : W × Kind} (hi : x.slot i = some g) : g ≠ f := by
  rintro rfl
  exact h.slot i hi

lemma Lost.append (h : Lost f o x) (hg : g ≠ f) (x' : Pool W) (hobjs : x'.objs = x.objs)
    (hslot : x'.slot = x.slot) (hold : ∀ w, x'.old w = x.old w ∨ x'.old w = some g)
    (hqueue : x'.queue = x.queue ++ [Task.fiber g]) (hothers : ∀ g ∈ x'.others, g ∈ x.others) :
    Lost f o x' := by
  refine ⟨by rw [hobjs, h.obj], fun i => by rw [hslot]; exact h.slot i, fun w => ?_, ?_, fun hf => ?_⟩
  · obtain heq | heq := hold w
    · rw [heq]
      exact h.old w
    · rw [heq]
      exact fun he => hg (Option.some.inj he)
  · rw [hqueue]
    simp [h.queue, hg.symm]
  · exact h.others (hothers f hf)

section

variable [Fintype W]

lemma Lost.ne_next (h : Lost f o x) (hx : Inv x) : some x.next ≠ some f := by
  intro heq
  have hnone := hx.owned.fresh x.next le_rfl
  rw [Option.some.inj heq, h.obj] at hnone
  cases hnone

lemma Lost.newFiber (h : Lost f o x) (hx : Inv x) : Lost f o x.newFiber := by
  have hne : f ≠ x.next := fun heq => h.ne_next hx (congrArg some heq.symm)
  exact ⟨(Function.update_of_ne hne _ _).trans h.obj, h.slot, h.old, h.queue, h.others⟩

lemma Lost.ne_of_place (h : Lost f o x) (hx : Inv x) (hp : (x.pc w).place = some (k, g)) : g ≠ f :=
  h.ne_of_slot ((hx.owned.worker w).stacked k g hp).1

end

variable [DecidableEq W]

lemma Lost.goto (h : Lost f o x) : Lost f o (x.goto w p) := ⟨h.obj, h.slot, h.old, h.queue, h.others⟩

lemma Lost.put (h : Lost f o x) {v : Option ℕ} (hv : v ≠ some f) : Lost f o (x.put w k v) := by
  refine ⟨h.obj, fun i => ?_, h.old, h.queue, h.others⟩
  by_cases hi : i = (w, k)
  · subst hi
    rwa [Pool.slot_put]
  · exact fun hs => h.slot i ((Function.update_of_ne hi _ _).symm.trans hs)

lemma Lost.drop (h : Lost f o x) : Lost f o (x.drop w k) := by
  unfold Pool.drop
  split
  · rename_i g hg
    exact (h.put (by simp)).release (h.ne_of_slot hg)
  · exact h

/-! The steps. -/

lemma Lost.toIdle (h : Lost f o x) : Lost f o (x.toIdle w) := by
  unfold Pool.toIdle
  split
  · split
    · split
      · exact h.goto
      · exact h.goto
    · exact h.crash
  · exact h.crash

lemma Lost.select (h : Lost f o x) : Lost f o (x.select w) := by
  unfold Pool.select
  split
  · exact ⟨h.obj, h.slot, h.old, h.queue, h.others⟩
  · rename_i rest hq
    exact ⟨h.obj, h.slot, h.old, fun hf => h.queue (by rw [hq]; exact List.mem_cons_of_mem _ hf),
      h.others⟩
  · rename_i g rest hq
    have hg : g ≠ f := by
      rintro rfl
      exact h.queue (by rw [hq]; exact List.mem_cons_self)
    split
    · split
      · exact h.crash
      · refine Lost.goto (Lost.put ?_ (by simpa using hg))
        exact ⟨h.obj, h.slot, h.old, fun hf => h.queue (by rw [hq]; exact List.mem_cons_of_mem _ hf),
          h.others⟩
    · exact h.crash

lemma Lost.call (h : Lost f o x) : Lost f o (x.call w k) := by
  unfold Pool.call
  split
  · rename_i hg
    split
    · split
      · exact h.crash
      · exact ⟨(Function.update_of_ne (h.ne_of_slot hg).symm _ _).trans h.obj, h.slot, h.old, h.queue,
          h.others⟩
    · exact h.crash
  · exact h.crash

lemma Lost.enter (h : Lost f o x) (hg : g ≠ f) : Lost f o (x.enter w k g) := by
  unfold Pool.enter
  split
  · split
    · exact (h.write hg).goto
    · exact (h.write hg).goto
    · exact h.crash
    · exact h.crash
  · exact h.crash

lemma Lost.advance (h : Lost f o x) (hg : g ≠ f) {q : Spot} (hs : x.advance w k g o' q = some x') :
    Lost f o x' := by
  have hwrite : ∀ o₁ : Obj, Lost f o (x.write g o₁) := fun o₁ => h.write hg
  cases q with
  | entry =>
    rw [Pool.advance] at hs
    split at hs <;> cases hs
    · exact (h.acquire.write hg).goto
    · exact h.crash
  | body => cases hs
  | yielding =>
    cases hs
    have hw := hwrite { o' with ctx := .yielded }
    exact ⟨hw.obj, h.slot, h.old, h.queue, h.others⟩
  | resumed | finished =>
    cases hs
    exact (hwrite _).goto.release hg
  | leaving =>
    rw [Pool.advance] at hs
    split at hs <;> cases hs
    · have hw := hwrite { o' with ctx := .last }
      exact ⟨hw.obj, h.slot, h.old, h.queue, h.others⟩
    · exact h.crash

lemma Lost.comeBack (h : Lost f o x) : Lost f o (x.comeBack w k) := by
  cases k with
  | task =>
    rw [Pool.comeBack]
    split
    · rename_i g hg
      have hne := h.ne_of_slot hg
      split
      · split
        · refine Lost.goto (Lost.put ?_ (by simp))
          exact h.append hne _ rfl rfl (fun _ => .inl rfl) rfl fun _ hm => hm
        · exact h.goto.drop
      · exact h.crash
    · exact h.crash
  | func =>
    rw [Pool.comeBack]
    split
    · rename_i g hg
      have hne := h.ne_of_slot hg
      split
      · split
        · refine Lost.goto (Lost.put ?_ (by simp))
          refine h.append hne _ rfl rfl (fun w' => ?_) rfl fun _ hm => hm
          dsimp only
          by_cases hw : w' = w
          · subst hw
            exact .inr (Function.update_self ..)
          · exact .inl (Function.update_of_ne hw _ _)
        · split
          · exact (h.write hne).goto
          · exact h.goto.drop
      · exact h.crash
    · exact h.crash
  | idle => exact h.goto

variable [Fintype W]

lemma Lost.dispatch (h : Lost f o x) (hx : Inv x) : Lost f o (x.dispatch w) := by
  unfold Pool.dispatch
  split
  · split
    · split
      · exact h.toIdle
      · exact h.goto
    · exact h.crash
  · split
    · split
      · rename_i hg
        split
        · exact (h.write (h.ne_of_slot hg)).goto
        · exact h.crash
      · exact ((h.newFiber hx).put (h.ne_next hx)).goto
    · exact h.toIdle

lemma Lost.go (h : Lost f o x) (hx : Inv x) (hs : x.go w = some x') : Lost f o x' := by
  unfold Pool.go at hs
  split at hs
  · cases hs
    exact ((h.newFiber hx).put (h.ne_next hx)).goto
  · cases hs
    exact h.goto.drop
  · cases hs
    exact h.select
  · cases hs
    exact h.dispatch hx
  · cases hs
    exact h.call
  · rename_i hpc
    cases hs
    exact h.enter (h.ne_of_place hx (by rw [hpc]; rfl))
  · rename_i hpc
    have hne := h.ne_of_place hx (w := w) (by rw [hpc]; rfl)
    split at hs
    · exact h.advance hne hs
    · cases hs
      exact h.crash
  · cases hs
    exact h.comeBack
  · split at hs <;> cases hs
    · rename_i g hg
      refine Lost.release (Lost.goto ⟨h.obj, h.slot, fun w' => ?_, h.queue, h.others⟩) ?_
      · dsimp only
        by_cases hw : w' = w
        · subst hw
          simp
        · rw [Function.update_of_ne hw]
          exact h.old w'
      · rintro rfl
        exact h.old w hg
    · exact h.goto
  · cases hs
    exact h.goto.drop
  · cases hs
    exact h.goto
  · cases hs

lemma Lost.body (h : Lost f o x) (hx : Inv x) {c : Choice} (hs : x.body w c = some x') :
    Lost f o x' := by
  unfold Pool.body at hs
  split at hs
  · rename_i k g hpc
    have hne : g ≠ f := h.ne_of_place hx (w := w) (k := k) (by rw [hpc]; rfl)
    split at hs
    · split at hs
      · split at hs <;> cases hs
        · exact ⟨h.obj, h.slot, h.old, h.queue, by simp [h.others, hne.symm]⟩
        · exact (h.acquire.write hne).goto
        · exact (h.write hne).goto
      · cases hs
        exact h.crash
    · cases hs
      exact h.crash
  · cases hs

theorem Lost.step (h : Lost f o x) (hx : Inv x) {a : Act W} (hs : x.step a = some x') :
    Lost f o x' := by
  have hother : ∀ {j g : ℕ}, x.others[j]? = some g → g ≠ f := by
    rintro j g hj rfl
    exact h.others (List.mem_of_getElem? hj)
  have herase : ∀ j, ∀ g ∈ x.others.eraseIdx j, g ∈ x.others := fun _ _ hm =>
    List.mem_of_mem_eraseIdx hm
  unfold Pool.step at hs
  split at hs
  · cases hs
  · cases a with
    | go w => exact h.go hx hs
    | body w c => exact h.body hx hs
    | spawn =>
      cases hs
      have hnew := h.newFiber hx
      refine ⟨hnew.obj, h.slot, h.old, h.queue, ?_⟩
      have hne : f ≠ x.next := fun heq => h.ne_next hx (congrArg some heq.symm)
      simp [h.others, hne]
    | submit =>
      cases hs
      exact ⟨h.obj, h.slot, h.old, by simp [h.queue], h.others⟩
    | copy j =>
      dsimp only at hs
      split at hs <;> cases hs
      rename_i g hj
      exact ⟨h.obj, h.slot, h.old, h.queue, by simp [h.others, (hother hj).symm]⟩
    | forget j =>
      dsimp only at hs
      split at hs <;> cases hs
      rename_i g hj
      exact Lost.release ⟨h.obj, h.slot, h.old, h.queue, fun hf => h.others (herase j f hf)⟩ (hother hj)
    | wake j =>
      dsimp only at hs
      split at hs <;> cases hs
      rename_i g hj
      exact h.append (hother hj) _ rfl rfl (fun _ => .inl rfl) rfl (herase j)

end Lost

/-- A fiber that is suspended, with a use count of two, is as it is from then on: nobody calls it, and
it is not destroyed. -/
theorem abandoned_fiber_stays [DecidableEq W] [Fintype W] {x x' : Pool W} {f : ℕ} {o : Obj}
    (hr : Reach Pool.step Calm {} x) (ho : x.objs f = some o) (hctx : o.ctx = .yielded)
    (hcount : x.count f = 2) (hr' : Reach Pool.step Calm x x') :
    x'.objs f = some o ∧ x'.count f = 2 ∧ ∀ w k, (x'.pc w).place ≠ some (k, f) := by
  have h := Inv.of_reach hr
  have hframes := h.keeps_itself ho hctx
  -- the two pointers are its own
  have hlost : Lost f o x := by
    have hrefs := h.exact.count_eq f
    rw [hcount] at hrefs
    unfold Pool.refs Pool.frames at hrefs
    rw [ho, Option.map_some, Option.getD_some, hframes] at hrefs
    exact ⟨ho, RefCount.ne_of_refs_eq_zero (by omega), RefCount.ne_of_refs_eq_zero (by omega),
      List.count_eq_zero.1 (by omega), List.count_eq_zero.1 (by omega)⟩
  have hboth : Inv x' ∧ Lost f o x' :=
    hr'.inv (P := fun y => Inv y ∧ Lost f o y) ⟨h, hlost⟩ fun _ hy hcalm hs =>
      ⟨hy.1.step hcalm hs, hy.2.step hy.1 hs⟩
  obtain ⟨h', hl⟩ := hboth
  refine ⟨hl.obj, ?_, fun w k hp => hl.ne_of_place h' hp rfl⟩
  rw [h'.exact.count_eq]
  unfold Pool.refs Pool.frames
  rw [hl.obj, Option.map_some, Option.getD_some, hframes, RefCount.refs_eq_zero hl.slot,
    RefCount.refs_eq_zero hl.old, List.count_eq_zero.2 hl.queue, List.count_eq_zero.2 hl.others]

theorem abandoned_fiber_stays_forgotten : ∃ x : Pool Bool, Reach Pool.step Calm {} x ∧
    x.count 1 = 2 ∧ ∀ x', Reach Pool.step Calm x x' → x'.count 1 = 2 := by
  have hrun : (run Pool.step calm ({} : Pool Bool) (suspends ++ [.go false, .forget 0])).any
      (fun x => (x.objs 1).any (fun o => o.ctx == .yielded) && x.count 1 == 2) = true := by
    decide +kernel
  obtain ⟨x, hr, hp⟩ := exists_reach_of_run calm_of_test hrun
  obtain ⟨hobj, hcount⟩ := (Bool.and_eq_true _ _).mp hp
  cases ho : x.objs 1 with
  | none => simp [ho] at hobj
  | some o =>
    have hctx : o.ctx = .yielded := by simpa [ho] using hobj
    have htwo : x.count 1 = 2 := by simpa using hcount
    exact ⟨x, hr, htwo, fun x' hr' => (abandoned_fiber_stays hr ho hctx htwo hr').2.1⟩

end Eva01.Fibers.Lifetime
