import Eva01.Fiber.Pool
import Mathlib

/-!
Who can call which fiber, and what the fibers are at.

A fiber can be called through a pointer of a worker or from the queue, and there is one such pointer
at most (`Owned`). So what a worker does to its fibers is nobody else's business: a step is checked
for its own worker only (`Owned.frame`), whether it is on the stack of a fiber (`Owned.write`) or on
its own (`Owned.move`). The counts of the pointers are the other half of the invariant; that a
pointer is given up, with the fiber going if it was the last one, is `Inv.release`.
-/

namespace Eva01.Fibers.Lifetime

open Eva01.Lib.Runs
open Eva01.Lib
open Eva01.Runtime (State)

variable {W : Type*}

/-! ### The invariant -/

namespace Pc

/-- The fiber that it has been given to, by which pointer. -/
@[simp]
def place : Pc → Option (Kind × ℕ)
  | .swap k f | .on k f _ => some (k, f)
  | _ => none

/-- The pointer whose fiber will be called. -/
@[simp]
def picks : Pc → Option Kind
  | .chosen => some .task
  | .call k => some k
  | _ => none

/-- The pointer whose fiber is called. -/
@[simp]
def calls : Pc → Option Kind
  | .call k | .swap k _ | .on k _ _ | .back k => some k
  | _ => none

/-- In the loop. -/
@[simp]
def loops : Pc → Bool
  | .make | .leave _ | .ended => false
  | _ => true

/-- A pointer that is null here. -/
@[simp]
def lacks : Pc → Kind → Prop
  | .make, _ => True
  | .select, k => k = .task
  | _, _ => False

end Pc

namespace Obj

/-- A fiber that no thread is on. -/
def Parked (o : Obj) : Prop :=
  match o.ctx with
  | .entry => o.state = .ready ∧ o.main = false ∧ o.frame = false
  | .yielded => (o.state = .ready ∨ o.state = .suspend) ∧ o.main = true ∧ o.frame = true
  | .last => o.state.isDone = true ∧ o.main = false ∧ o.frame = false
  | .gone => False

/-- A fiber that is about to be switched to. -/
def Enters (o : Obj) : Prop :=
  o.state = .running ∧
    (o.ctx = .entry ∧ o.main = false ∧ o.frame = false ∨
      o.ctx = .yielded ∧ o.main = true ∧ o.frame = true)

/-- A fiber with a thread on its stack. -/
def At (o : Obj) (p : Spot) : Prop :=
  o.ctx = .gone ∧
    match p with
    | .entry => o.state = .running ∧ o.main = false ∧ o.frame = false
    | .body => o.state = .running ∧ o.main = true ∧ o.frame = false
    | .yielding => (o.state = .ready ∨ o.state = .suspend) ∧ o.main = true ∧ o.frame = true
    | .resumed => o.state = .running ∧ o.main = true ∧ o.frame = true
    | .finished => o.state.isDone = true ∧ o.main = true ∧ o.frame = false
    | .leaving => o.state.isDone = true ∧ o.main = false ∧ o.frame = false

end Obj

/-- What holds of a worker. -/
structure Local (x : Pool W) (w : W) : Prop where
  stacked : ∀ k f, (x.pc w).place = some (k, f) → x.slot (w, k) = some f ∧ x.current w = some f
  free : (x.pc w).place = none → x.current w = none
  entering : ∀ k f o, x.pc w = .swap k f → x.objs f = some o → o.Enters
  running : ∀ k f p o, x.pc w = .on k f p → x.objs f = some o → o.At p
  picked : ∀ k f o, (x.pc w).picks = some k → x.slot (w, k) = some f → x.objs f = some o →
    o.ctx ≠ .last
  recycled : ∀ f o, (x.pc w).calls ≠ some .func → x.slot (w, .func) = some f →
    x.objs f = some o → o.ctx = .entry
  called : ∀ k, (x.pc w).calls = some k → x.slot (w, k) ≠ none
  idle : (x.pc w).loops = true → x.slot (w, .idle) ≠ none
  null : ∀ k, (x.pc w).lacks k → x.slot (w, k) = none
  old : x.pc w ≠ .discard → x.old w = none

/-- Who can call which fiber, and what the fibers are at. Counts are not part of it. -/
structure Owned [Fintype W] (x : Pool W) : Prop where
  sound : x.crashed = false
  fresh : ∀ f, x.next ≤ f → x.objs f = none
  claims : ∀ f, x.claims f ≤ 1
  parked : ∀ f o, x.objs f = some o → (∀ w k, (x.pc w).place ≠ some (k, f)) → o.Parked
  queued : ∀ f o, Task.fiber f ∈ x.queue → x.objs f = some o → o.ctx ≠ .last
  worker : ∀ w, Local x w

structure Inv [Fintype W] (x : Pool W) : Prop where
  owned : Owned x
  exact : RefCount.Exact x.Alive x.count x.refs
  total : x.total = x.live

section Owned

variable {x x' : Pool W} {w w' : W} {k k' : Kind} {f g : ℕ} {o o' : Obj}

/-- A worker is not concerned with what the others do to fibers that it does not have. -/
lemma Local.congr (h : Local x w) (hpc : x'.pc w = x.pc w) (hcur : x'.current w = x.current w)
    (hold : x'.old w = x.old w) (hslot : ∀ k, x'.slot (w, k) = x.slot (w, k))
    (hobjs : ∀ k f o, x.slot (w, k) = some f → x'.objs f = some o → x.objs f = some o) :
    Local x' w where
  stacked k f hp := by
    rw [hpc] at hp
    rw [hslot, hcur]
    exact h.stacked k f hp
  free hp := by
    rw [hpc] at hp
    rw [hcur]
    exact h.free hp
  entering k f o hp ho := by
    rw [hpc] at hp
    exact h.entering k f o hp (hobjs k f o (h.stacked k f (by rw [hp]; rfl)).1 ho)
  running k f p o hp ho := by
    rw [hpc] at hp
    exact h.running k f p o hp (hobjs k f o (h.stacked k f (by rw [hp]; rfl)).1 ho)
  picked k f o hp hs ho := by
    rw [hpc] at hp
    rw [hslot] at hs
    exact h.picked k f o hp hs (hobjs k f o hs ho)
  recycled f o hp hs ho := by
    rw [hpc] at hp
    rw [hslot] at hs
    exact h.recycled f o hp hs (hobjs .func f o hs ho)
  called k hp := by
    rw [hpc] at hp
    rw [hslot]
    exact h.called k hp
  idle hp := by
    rw [hpc] at hp
    rw [hslot]
    exact h.idle hp
  null k hp := by
    rw [hpc] at hp
    rw [hslot]
    exact h.null k hp
  old hp := by
    rw [hpc] at hp
    rw [hold]
    exact h.old hp

lemma Local.of_off (hplace : (x.pc w).place = none) (hcur : x.current w = none)
    (hpicked : ∀ k f o, (x.pc w).picks = some k → x.slot (w, k) = some f → x.objs f = some o →
      o.ctx ≠ .last)
    (hrecycled : ∀ f o, (x.pc w).calls ≠ some .func → x.slot (w, .func) = some f →
      x.objs f = some o → o.ctx = .entry)
    (hcalled : ∀ k, (x.pc w).calls = some k → x.slot (w, k) ≠ none)
    (hidle : (x.pc w).loops = true → x.slot (w, .idle) ≠ none)
    (hnull : ∀ k, (x.pc w).lacks k → x.slot (w, k) = none)
    (hold : x.pc w ≠ .discard → x.old w = none) : Local x w where
  stacked k f hp := by
    rw [hplace] at hp
    cases hp
  free _ := hcur
  entering k f o hp := by
    rw [hp] at hplace
    cases hplace
  running k f p o hp := by
    rw [hp] at hplace
    cases hplace
  picked := hpicked
  recycled := hrecycled
  called := hcalled
  idle := hidle
  null := hnull
  old := hold

variable [Fintype W]

lemma Owned.not_queued (h : Owned x) (hk : x.slot (w, k) = some f) : Task.fiber f ∉ x.queue := by
  intro hq
  have hpos := RefCount.refs_pos hk
  have hcount := List.count_pos_iff.2 hq
  have hle := h.claims f
  unfold Pool.claims at hle
  omega

lemma Owned.parked_of_queue (h : Owned x) (hq : Task.fiber f ∈ x.queue) (ho : x.objs f = some o) :
    o.Parked := by
  refine h.parked f o ho fun w k hp => ?_
  exact h.not_queued ((h.worker w).stacked k f hp).1 hq

/-- Counts and the pointers of others are not part of it, and a fiber may go. -/
lemma Owned.mono (h : Owned x) (hobjs : ∀ f o, x'.objs f = some o → x.objs f = some o)
    (hsound : x'.crashed = false) (hnext : x'.next = x.next) (hslot : x'.slot = x.slot)
    (hqueue : x'.queue = x.queue) (hold : x'.old = x.old) (hcur : x'.current = x.current)
    (hpc : x'.pc = x.pc) : Owned x' where
  sound := hsound
  fresh f hf := by
    rw [hnext] at hf
    by_contra hne
    obtain ⟨o, ho⟩ := Option.ne_none_iff_exists'.1 hne
    have hnone := h.fresh f hf
    rw [hobjs f o ho] at hnone
    cases hnone
  claims f := by
    unfold Pool.claims
    rw [hslot, hqueue]
    exact h.claims f
  parked f o ho hp := by
    rw [hpc] at hp
    exact h.parked f o (hobjs f o ho) hp
  queued f o hq ho := by
    rw [hqueue] at hq
    exact h.queued f o hq (hobjs f o ho)
  worker w := (h.worker w).congr (by rw [hpc]) (by rw [hcur]) (by rw [hold])
    (fun k => by rw [hslot]) fun _ f o _ => hobjs f o

variable [DecidableEq W]

/-- A fiber can be called through one pointer. -/
lemma Owned.unique (h : Owned x) (hk : x.slot (w, k) = some f) (hk' : x.slot (w', k') = some f) :
    w' = w ∧ k' = k := by
  by_contra hne
  have htwo := RefCount.two_le_refs (i := (w', k')) (j := (w, k)) (fun heq => hne (by simpa using heq))
    hk' hk
  have hle := h.claims f
  unfold Pool.claims at hle
  omega

lemma Owned.off_stack (h : Owned x) (hk : x.slot (w, k) = some f)
    (hw : (x.pc w).place = none) (w' : W) (k' : Kind) : (x.pc w').place ≠ some (k', f) := by
  intro hp
  obtain ⟨hs, -⟩ := (h.worker w').stacked k' f hp
  obtain ⟨rfl, -⟩ := h.unique hk hs
  rw [hw] at hp
  cases hp

lemma Owned.parked_of_slot (h : Owned x) (hk : x.slot (w, k) = some f)
    (hw : (x.pc w).place = none) (ho : x.objs f = some o) : o.Parked :=
  h.parked f o ho (h.off_stack hk hw)

/-- A step of the worker `w` that leaves the others alone. -/
lemma Owned.frame (h : Owned x) (w : W) (hsound : x'.crashed = false)
    (hfresh : ∀ f, x'.next ≤ f → x'.objs f = none) (hclaims : ∀ f, x'.claims f ≤ 1)
    (hparked : ∀ f o, x'.objs f = some o → (∀ w k, (x'.pc w).place ≠ some (k, f)) → o.Parked)
    (hqueued : ∀ f o, Task.fiber f ∈ x'.queue → x'.objs f = some o → o.ctx ≠ .last)
    (hlocal : Local x' w)
    (hothers : ∀ w', w' ≠ w → x'.pc w' = x.pc w' ∧ x'.current w' = x.current w' ∧
      x'.old w' = x.old w' ∧ ∀ k, x'.slot (w', k) = x.slot (w', k))
    (hobjs : ∀ w', w' ≠ w → ∀ k f, x.slot (w', k) = some f → x'.objs f = x.objs f) : Owned x' := by
  refine ⟨hsound, hfresh, hclaims, hparked, hqueued, fun w' => ?_⟩
  by_cases hw : w' = w
  · subst hw
    exact hlocal
  · obtain ⟨hpc, hcur, hold, hslot⟩ := hothers w' hw
    refine (h.worker w').congr hpc hcur hold hslot fun k f o hs ho => ?_
    rwa [hobjs w' hw k f hs] at ho

lemma Pc.calls_of_place {p : Pc} (h : p.place = some (k, f)) : p.calls = some k := by
  cases p <;> simp [Pc.place, Pc.calls] at h ⊢
  all_goals exact h.1

lemma Local.write (h : Owned x) (hk : x.slot (w, k) = some f)
    (hcalls : (x.pc w).calls = some k) {p : Pc} (hp : p.calls = some k) (hpick : p.picks = none)
    (hwhere : p.place = some (k, f) ∧ x'.current w = some f ∧ (∀ k f, p = .swap k f → o'.Enters) ∧
        (∀ k f q, p = .on k f q → o'.At q) ∨ p.place = none ∧ x'.current w = none)
    (hobjs : x'.objs = Function.update x.objs f (some o')) (hslot : x'.slot = x.slot)
    (hold : x'.old = x.old) (hpc : x'.pc w = p) : Local x' w := by
  have hl := h.worker w
  have hself : x'.objs f = some o' := by rw [hobjs, Function.update_self]
  have hloop : (x.pc w).loops = true ∧ x.pc w ≠ .discard := by
    cases hq : x.pc w <;> simp [hq, Pc.calls, Pc.loops] at hcalls ⊢
  constructor
  case stacked =>
    intro k' g hg
    rw [hpc] at hg
    obtain ⟨hplace, hc, -⟩ | ⟨hplace, -⟩ := hwhere
    · rw [hplace] at hg
      cases hg
      exact ⟨by rw [hslot, hk], hc⟩
    · rw [hplace] at hg
      cases hg
  case free =>
    intro hg
    rw [hpc] at hg
    obtain ⟨hplace, -⟩ | ⟨-, hc⟩ := hwhere
    · rw [hplace] at hg
      cases hg
    · exact hc
  case entering =>
    intro k' g o₁ hg ho₁
    rw [hpc] at hg
    obtain ⟨hplace, -, hent, -⟩ | ⟨hplace, -⟩ := hwhere
    · rw [hg] at hplace
      cases hplace
      rw [hself] at ho₁
      cases ho₁
      exact hent _ _ hg
    · rw [hg] at hplace
      cases hplace
  case running =>
    intro k' g q o₁ hg ho₁
    rw [hpc] at hg
    obtain ⟨hplace, -, -, hat⟩ | ⟨hplace, -⟩ := hwhere
    · rw [hg] at hplace
      cases hplace
      rw [hself] at ho₁
      cases ho₁
      exact hat _ _ _ hg
    · rw [hg] at hplace
      cases hplace
  case picked =>
    intro k' g o₁ hg
    rw [hpc, hpick] at hg
    cases hg
  case recycled =>
    intro g o₁ hg hs ho₁
    rw [hpc, hp] at hg
    rw [hslot] at hs
    have hne : g ≠ f := by
      rintro rfl
      exact hg (congrArg some (h.unique hs hk).2)
    rw [hobjs, Function.update_of_ne hne] at ho₁
    exact hl.recycled g o₁ (by rwa [hcalls]) hs ho₁
  case called =>
    intro k' hk'
    rw [hpc, hp] at hk'
    cases hk'
    rw [hslot, hk]
    simp
  case idle =>
    intro _
    rw [hslot]
    exact hl.idle hloop.1
  case null =>
    intro k' hk'
    rw [hpc] at hk'
    cases p <;> first | exact hk'.elim | cases hp
  case old =>
    intro _
    rw [hold]
    exact hl.old hloop.2

lemma Owned.write (h : Owned x) (hk : x.slot (w, k) = some f) (ho : x.objs f = some o)
    (hcalls : (x.pc w).calls = some k) {p : Pc} (hp : p.calls = some k) (hpick : p.picks = none)
    {c : Option ℕ}
    (hwhere : p.place = some (k, f) ∧ c = some f ∧ (∀ k f, p = .swap k f → o'.Enters) ∧
        (∀ k f q, p = .on k f q → o'.At q) ∨ p.place = none ∧ c = none ∧ o'.Parked)
    (hsound : x'.crashed = false) (hnext : x'.next = x.next)
    (hobjs : x'.objs = Function.update x.objs f (some o')) (hslot : x'.slot = x.slot)
    (hqueue : x'.queue = x.queue) (hold : x'.old = x.old)
    (hcur : x'.current = Function.update x.current w c) (hpc : x'.pc = Function.update x.pc w p) :
    Owned x' := by
  have hobj : ∀ {g}, g ≠ f → x'.objs g = x.objs g := fun hg => by
    rw [hobjs, Function.update_of_ne hg]
  have hcw : x'.current w = c := by rw [hcur, Function.update_self]
  refine h.frame w hsound ?_ ?_ ?_ ?_ (Local.write h hk hcalls hp hpick ?_ hobjs hslot hold
    (by rw [hpc, Function.update_self])) ?_ ?_
  · intro g hg
    rw [hnext] at hg
    have hne : g ≠ f := by
      rintro rfl
      rw [h.fresh g hg] at ho
      cases ho
    rw [hobj hne]
    exact h.fresh g hg
  · intro g
    unfold Pool.claims
    rw [hslot, hqueue]
    exact h.claims g
  · intro g o₁ ho₁ hoff
    by_cases hg : g = f
    · subst hg
      rw [hobjs, Function.update_self] at ho₁
      cases ho₁
      obtain ⟨hplace, -⟩ | ⟨-, -, hparked⟩ := hwhere
      · exact absurd (by rw [hpc, Function.update_self, hplace]) (hoff w k)
      · exact hparked
    · rw [hobj hg] at ho₁
      refine h.parked g o₁ ho₁ fun w' k' hp' => ?_
      by_cases hw' : w' = w
      · subst hw'
        -- the fiber that `w` was on is the one that is written
        have hkk := Pc.calls_of_place hp'
        rw [hcalls] at hkk
        cases hkk
        have hs := ((h.worker w').stacked k g hp').1
        rw [hk] at hs
        exact hg (Option.some.inj hs).symm
      · exact hoff w' k' (by rw [hpc, Function.update_of_ne hw', hp'])
  · intro g o₁ hq ho₁
    rw [hqueue] at hq
    have hne : g ≠ f := by
      rintro rfl
      exact h.not_queued hk hq
    rw [hobj hne] at ho₁
    exact h.queued g o₁ hq ho₁
  · rw [hcw]
    obtain hon | ⟨hplace, hc, -⟩ := hwhere
    · exact .inl hon
    · exact .inr ⟨hplace, hc⟩
  · intro w' hw'
    rw [hpc, Function.update_of_ne hw', hcur, Function.update_of_ne hw', hold, hslot]
    exact ⟨rfl, rfl, rfl, fun _ => rfl⟩
  · intro w' hw' k' g hs
    refine hobj ?_
    rintro rfl
    exact hw' (h.unique hk hs).1

lemma Owned.move (h : Owned x) (w : W) {p : Pc} (hw : (x.pc w).place = none)
    (hsound : x'.crashed = false) (hnext : x'.next = x.next) (hobjs : x'.objs = x.objs)
    (hcur : x'.current = x.current) (hpc : x'.pc = Function.update x.pc w p)
    (hslot : ∀ w', w' ≠ w → ∀ k, x'.slot (w', k) = x.slot (w', k))
    (hold : ∀ w', w' ≠ w → x'.old w' = x.old w') (hclaims : ∀ f, x'.claims f ≤ 1)
    (hqueued : ∀ f o, Task.fiber f ∈ x'.queue → x.objs f = some o → o.ctx ≠ .last)
    (hlocal : x'.pc w = p → x'.current w = none → Local x' w) : Owned x' := by
  have hpcw : x'.pc w = p := by rw [hpc, Function.update_self]
  refine h.frame w hsound ?_ hclaims ?_ (fun f o hq ho => hqueued f o hq (by rwa [hobjs] at ho))
    (hlocal hpcw (by rw [hcur]; exact (h.worker w).free hw)) ?_ fun _ _ _ _ _ => by rw [hobjs]
  · intro f hf
    rw [hobjs]
    exact h.fresh f (by rwa [hnext] at hf)
  · intro f o ho hoff
    rw [hobjs] at ho
    refine h.parked f o ho fun w' k hp' => ?_
    by_cases hw' : w' = w
    · subst hw'
      rw [hw] at hp'
      cases hp'
    · exact hoff w' k (by rw [hpc, Function.update_of_ne hw', hp'])
  · intro w' hw'
    rw [hpc, Function.update_of_ne hw', hcur]
    exact ⟨rfl, rfl, hold w' hw', hslot w' hw'⟩

lemma Owned.reset (h : Owned x) (hk : x.slot (w, .func) = some f) (hw : (x.pc w).place = none)
    (ho : x.objs f = some o) (o' : Obj) (hparked : o'.Parked) (hctx : o'.ctx = .entry) :
    Owned (x.write f o') := by
  have hobj : ∀ {g}, g ≠ f → (x.write f o').objs g = x.objs g := fun hg =>
    Function.update_of_ne hg _ _
  have hself : (x.write f o').objs f = some o' := Function.update_self ..
  have hl := h.worker w
  refine h.frame w h.sound ?_ h.claims ?_ ?_ ?_ (fun w' _ => ⟨rfl, rfl, rfl, fun _ => rfl⟩) ?_
  · intro g hg
    have hne : g ≠ f := by
      rintro rfl
      rw [h.fresh g hg] at ho
      cases ho
    rw [hobj hne]
    exact h.fresh g hg
  · intro g o₁ ho₁ hoff
    by_cases hg : g = f
    · subst hg
      rw [hself] at ho₁
      cases ho₁
      exact hparked
    · rw [hobj hg] at ho₁
      exact h.parked g o₁ ho₁ hoff
  · intro g o₁ hq ho₁
    have hne : g ≠ f := by
      rintro rfl
      exact h.not_queued hk hq
    rw [hobj hne] at ho₁
    exact h.queued g o₁ hq ho₁
  · refine Local.of_off hw (hl.free hw) ?_ ?_ hl.called hl.idle hl.null hl.old
    · intro k' g o₁ hp hs ho₁
      by_cases hg : g = f
      · subst hg
        rw [hself] at ho₁
        cases ho₁
        simp [hctx]
      · rw [hobj hg] at ho₁
        exact hl.picked k' g o₁ hp hs ho₁
    · intro g o₁ _ hs ho₁
      have hgf : g = f := Option.some.inj (Eq.trans (Eq.symm hs) hk)
      subst hgf
      rw [hself] at ho₁
      cases ho₁
      exact hctx
  · intro w' hw' k' g hs
    refine hobj ?_
    rintro rfl
    exact hw' (h.unique hk hs).1

end Owned

/-! ### The counts -/

section Counts

variable {x : Pool W} {w : W} {k : Kind} {f g : ℕ} {o o' : Obj}

lemma Obj.Parked.not_running (h : o.Parked) : o.state ≠ .running := by
  intro hr
  unfold Obj.Parked at h
  split at h
  · rw [hr] at h
    cases h.1
  · rw [hr] at h
    obtain ⟨h | h, -⟩ := h <;> cases h
  · rw [hr] at h
    cases h.1
  · exact h

lemma Pool.alive_write (ho : x.objs f = some o) (o' : Obj) (g : ℕ) :
    (x.write f o').Alive g ↔ x.Alive g := by
  unfold Pool.Alive Pool.write
  by_cases hg : g = f
  · subst hg
    simp [ho]
  · simp [hg]

lemma Pool.live_write (ho : x.objs f = some o) (o' : Obj) : (x.write f o').live = x.live := by
  unfold Pool.live
  simp only [Pool.alive_write ho o']
  rfl

variable [Fintype W]

lemma Pool.refs_write (ho : x.objs f = some o) (o' : Obj) (g : ℕ) :
    (x.write f o').refs g + (if g = f then o.frames else 0) =
      x.refs g + if g = f then o'.frames else 0 := by
  unfold Pool.refs Pool.write Pool.frames
  by_cases hg : g = f
  · subst hg
    simp only [ho, Function.update_self, Option.map_some, Option.getD_some, if_true]
    omega
  · simp only [Function.update_of_ne hg, hg, if_false]

lemma Inv.alive_of_slot (h : Inv x) (hk : x.slot (w, k) = some f) : ∃ o, x.objs f = some o := by
  have hpos := RefCount.refs_pos hk
  exact Option.isSome_iff_exists.1 ((h.exact.alive_iff f).2 (by unfold Pool.refs; omega))

lemma Inv.alive_of_queue (h : Inv x) (hq : Task.fiber f ∈ x.queue) : ∃ o, x.objs f = some o := by
  have hpos := List.count_pos_iff.2 hq
  exact Option.isSome_iff_exists.1 ((h.exact.alive_iff f).2 (by unfold Pool.refs; omega))

lemma Inv.refs_next (h : Inv x) : x.refs x.next = 0 := by
  by_contra hne
  have halive := (h.exact.alive_iff x.next).2 (Nat.pos_of_ne_zero hne)
  unfold Pool.Alive at halive
  rw [h.owned.fresh x.next le_rfl] at halive
  cases halive

lemma Inv.slot_ne_next (h : Inv x) (i : W × Kind) : x.slot i ≠ some x.next := by
  have hzero := h.refs_next
  exact RefCount.ne_of_refs_eq_zero (by unfold Pool.refs at hzero; omega) i

lemma Inv.next_not_queued (h : Inv x) : Task.fiber x.next ∉ x.queue := by
  have hzero := h.refs_next
  exact List.count_eq_zero.1 (by unfold Pool.refs at hzero; omega)

lemma Inv.release (h : Owned x)
    (he : RefCount.Exact x.Alive x.count fun g => x.refs g + if g = f then 1 else 0)
    (ht : x.total = x.live) : Inv (x.release f) := by
  unfold Pool.release
  split
  · rename_i hc
    exact ⟨h.mono (fun _ _ ho => ho) h.sound rfl rfl rfl rfl rfl rfl, he.release hc, ht⟩
  · rename_i hc
    have halive : x.Alive f := (he.alive_iff f).2 (by simp)
    obtain ⟨o, ho⟩ := Option.isSome_iff_exists.1 halive
    have hgone : ∀ g, Pool.Alive { x with objs := Function.update x.objs f none
                                          count := Function.update x.count f 0
                                          total := x.total - 1 } g ↔ x.Alive g ∧ g ≠ f := by
      intro g
      by_cases hg : g = f
      · subst hg
        simp [Pool.Alive]
      · simp [hg, Pool.Alive]
    obtain ⟨hzero, hexact⟩ := he.release_last (Nat.le_of_not_lt hc) hgone
    -- nobody is on its stack, so it is not running
    have hslot : ∀ i, x.slot i ≠ some f :=
      RefCount.ne_of_refs_eq_zero (by unfold Pool.refs at hzero; omega)
    have hrun : o.state ≠ .running := by
      refine (h.parked f o ho fun w k hp => ?_).not_running
      exact hslot (w, k) ((h.worker w).stacked k f hp).1
    rw [ho]
    dsimp only
    rw [if_neg hrun]
    refine ⟨h.mono ?_ h.sound rfl rfl rfl rfl rfl rfl, ?_, ?_⟩
    · intro g o₁ ho₁
      dsimp only at ho₁
      by_cases hg : g = f
      · subst hg
        rw [Function.update_self] at ho₁
        cases ho₁
      · rwa [Function.update_of_ne hg] at ho₁
    · refine hexact.move (fun _ => Iff.rfl) fun g => ?_
      unfold Pool.refs Pool.frames at hzero ⊢
      by_cases hg : g = f
      · subst hg
        simp only [Function.update_self, Option.map_none, Option.getD_none]
        omega
      · simp only [Function.update_of_ne hg]
    · have hmem : f ∈ (Finset.range x.next).filter x.Alive := by
        rw [Finset.mem_filter, Finset.mem_range]
        refine ⟨?_, halive⟩
        by_contra hle
        rw [h.fresh f (Nat.le_of_not_lt hle)] at ho
        cases ho
      show x.total - 1 = ((Finset.range x.next).filter _).card
      have herase : (Finset.range x.next).filter (fun g => x.Alive g ∧ g ≠ f) =
          ((Finset.range x.next).filter x.Alive).erase f := by
        ext g
        simp only [Finset.mem_filter, Finset.mem_erase]
        exact ⟨fun ⟨hr, ha, hne⟩ => ⟨hne, hr, ha⟩, fun ⟨hne, hr, ha⟩ => ⟨hr, ha, hne⟩⟩
      simp only [hgone]
      rw [herase, Finset.card_erase_of_mem hmem, ht]
      rfl

variable [DecidableEq W]

lemma Pool.refs_put (x : Pool W) (w : W) (k : Kind) (v : Option ℕ) (g : ℕ) :
    (x.put w k v).refs g + (if x.slot (w, k) = some g then 1 else 0) =
      x.refs g + if v = some g then 1 else 0 := by
  have hslot := RefCount.refs_update x.slot (w, k) v g
  unfold Pool.refs Pool.put Pool.frames
  dsimp only
  omega

lemma Pool.claims_put (x : Pool W) (w : W) (k : Kind) (v : Option ℕ) (g : ℕ) :
    (x.put w k v).claims g + (if x.slot (w, k) = some g then 1 else 0) =
      x.claims g + if v = some g then 1 else 0 := by
  have hslot := RefCount.refs_update x.slot (w, k) v g
  unfold Pool.claims Pool.put
  dsimp only
  omega

end Counts

end Eva01.Fibers.Lifetime
