import Eva01.Fiber.Switch

/-!
Fibers that are done: `TERM` after a return, `EXCEPT` after an exception.

`isDone()` is true in both states, but the assertion of `call()` tests for `TERM` only. So a fiber
that has ended with an exception becomes `RUNNING` again when it is called, and its `MainFunc` goes on
behind its last `yield()`. And before its assertion `call()` returns at once for a fiber constructed
with `is_main`, or the main fiber itself, while `t_fiber` is the main fiber: such a call is not
rejected either.

These are the only ways (`done_kept_iff`), whoever calls, yields or is reset: a fiber called by a
sub-fiber, the fiber that executes, and the main fiber among them. What carries this is that the code
of a fiber executes with `t_fiber` at that fiber or at the main fiber (`Thread.Admits`), and that the
continuation behind a `MainFunc` is found in the fibers that are done alone (`Fiber.Stored`).
-/

namespace Eva01.Fibers

open Eva01.Lib.Runs
open Eva01.Runtime (State)

variable {κ ℓ : Type*}

/-! ### The law -/

/-- The fiber is done. -/
def Thread.Done (s : Thread κ ℓ) (g : ℕ) : Prop := (s.fibers g).state.isDone = true

/-- `g->call()` is executed now. -/
def Calls (prog : κ → Op κ ℓ) (s : Thread κ ℓ) (g : ℕ) : Prop :=
  ∃ f k next, s.control = .code f k ∧ prog k = .call g next

/-- `g->reset()` is executed now. -/
def Resets (prog : κ → Op κ ℓ) (s : Thread κ ℓ) (g : ℕ) : Prop :=
  ∃ f k fn next, s.control = .code f k ∧ prog k = .reset g fn next

/-- A step respects the fibers that are done. -/
structure KeepsDone (prog : κ → Op κ ℓ) (s s' : Thread κ ℓ) : Prop where
  /-- They stay so until they are reset. -/
  done : ∀ g, s.Done g → s'.Done g ∨ Resets prog s g
  /-- Calls of them fail their assertion. -/
  rejected : ∀ g, Calls prog s g → s.Done g → s'.control = .aborted
  /-- Nobody is resumed behind the end of `MainFunc`. There it goes on only by a `yield()` that
  returned at once. -/
  notResumed : ∀ f, s'.control = .behind f → ∃ st, s.control = .finish f st

/-- A call of a fiber that is done is one that the assertion tests for, and gets to. -/
def CallsTested (prog : κ → Op κ ℓ) (s : Thread κ ℓ) (_ : Unit) : Prop :=
  ∀ g, Calls prog s g → s.Done g →
    (s.fibers g).state = .term ∧ ¬((s.fibers g).main = true ∧ s.tFiber = 0)

/-! ### The invariant -/

/-- The continuation of the fiber `f`, of `n` that were made: the main fiber has the position of
somebody; another fiber has one of its own, behind its `MainFunc` only if it is done. -/
def Cont.Stored (n f : ℕ) (done : Bool) : Cont κ → Prop
  | .entry => True
  | .at r _ => if f = 0 then r < n else r = f
  | .last _ => f ≠ 0 ∧ done = true

structure Fiber.Stored (n f : ℕ) (fb : Fiber κ) : Prop where
  made : fb.state.isDone = true → f < n
  ctx : fb.ctx.Stored n f fb.state.isDone

/-- Who executes is `t_fiber`, or `t_fiber` is the main fiber. -/
def Thread.Admits (s : Thread κ ℓ) : Control κ → Prop
  | .code f _ => f < s.nextFiber ∧ (s.tFiber = 0 ∨ s.tFiber = f ∧ ¬s.Done f)
  | .finish f st => f < s.nextFiber ∧ (s.tFiber = 0 ∨ s.tFiber = f) ∧ st.isDone = true
  | .behind _ => s.tFiber = 0
  | .exited _ | .aborted => True

structure Tracked (s : Thread κ ℓ) : Prop where
  fibers : ∀ f, (s.fibers f).Stored s.nextFiber f
  made : s.tFiber < s.nextFiber
  control : s.Admits s.control

theorem Tracked.start (k : κ) : Tracked (Thread.start k : Thread κ ℓ) where
  fibers f := by
    by_cases hf : f = 0
    · subst hf
      exact ⟨fun h => (by cases h), by simp [Thread.start, Cont.Stored]⟩
    · simp only [Thread.start, hf, if_false]
      exact ⟨fun h => (by cases h), trivial⟩
  made := Nat.one_pos
  control := ⟨Nat.one_pos, .inl rfl⟩

/-! ### One step -/

section Step

variable {s s' : Thread κ ℓ} {prog : κ → Op κ ℓ} {f g n : ℕ} {k next : κ} {st : State}
  {here : Cont κ} {fb : Fiber κ}

lemma Cont.Stored.mono {m : ℕ} {done done' : Bool} {c : Cont κ} (h : c.Stored n f done) (hnm : n ≤ m)
    (hdone : done = true → done' = true) : c.Stored m f done' := by
  cases c with
  | entry => trivial
  | «at» r k =>
    rw [Cont.Stored] at h ⊢
    by_cases hf : f = 0
    · rw [if_pos hf] at h ⊢
      exact h.trans_le hnm
    · rwa [if_neg hf] at h ⊢
  | last r => exact ⟨h.1, hdone h.2⟩

lemma Tracked.admits {c : Control κ} (hs : Tracked s) (hc : s.control = c) : s.Admits c := by
  have := hs.control
  rwa [hc] at this

lemma Tracked.admits_next (hs : Tracked s) (hc : s.control = .code f k) :
    s.Admits (.code f next) := by
  have hcode : s.Admits (.code f k) := hs.admits hc
  exact hcode

lemma Tracked.stored_update (hs : Tracked s) (hfb : fb.Stored s.nextFiber g) (f : ℕ) :
    (Function.update s.fibers g fb f).Stored s.nextFiber f := by
  by_cases hf : f = g
  · subst hf
    rwa [Function.update_self]
  · rw [Function.update_of_ne hf]
    exact hs.fibers f

lemma done_update (hg : s.Done g → fb.state.isDone = true) {r : ℕ} (h : s.Done r) :
    (Function.update s.fibers g fb r).state.isDone = true := by
  by_cases hr : r = g
  · subst hr
    rw [Function.update_self]
    exact hg h
  · rwa [Function.update_of_ne hr]

/-- What a step does that is no reset: the thread is tracked, the fibers that are done are so still,
and nobody is behind the end. -/
structure Steady (s s' : Thread κ ℓ) : Prop extends Tracked s' where
  done : ∀ g, s.Done g → s'.Done g
  notBehind : ∀ f, s'.control ≠ .behind f

lemma Tracked.goOn (hs : Tracked s) {c : Control κ} (hc : s.Admits c) (hb : ∀ f, c ≠ .behind f)
    (trace : List (ℕ × ℓ)) : Steady s { s with control := c, trace := trace } where
  fibers := hs.fibers
  made := hs.made
  control := by cases c <;> exact hc
  done _ h := h
  notBehind := hb

/-- **The main fiber's continuation goes on**, with `t_fiber` at the main fiber. -/
lemma Tracked.back (hfibers : ∀ f, (s.fibers f).Stored s.nextFiber f) (hpos : 0 < s.nextFiber)
    (ht : s.tFiber = 0) : Steady s (s.resume (s.fibers 0).ctx) := by
  have hmade : (s.resume (s.fibers 0).ctx).tFiber < s.nextFiber := by
    rw [Thread.tFiber_resume, ht]
    exact hpos
  have hctx := (hfibers 0).ctx
  cases hc : (s.fibers 0).ctx with
  | entry =>
    rw [hc] at hmade
    -- the main fiber was reset: `MainFunc` runs its new function
    cases hfunc : (s.fibers s.tFiber).func with
    | some k =>
      have hcontrol : (s.resume .entry).control = .code 0 k := by simp [Thread.resume, ht ▸ hfunc, ht]
      exact ⟨⟨hfibers, hmade, by rw [hcontrol]; exact ⟨hpos, .inl ht⟩⟩, fun _ h => h,
        by simp [hcontrol]⟩
    | none =>
      have hcontrol : (s.resume .entry).control = .finish 0 .except := by
        simp [Thread.resume, ht ▸ hfunc, ht]
      exact ⟨⟨hfibers, hmade, by rw [hcontrol]; exact ⟨hpos, .inl ht, rfl⟩⟩, fun _ h => h,
        by simp [hcontrol]⟩
  | «at» r k =>
    rw [hc] at hmade hctx
    have hr : r < s.nextFiber := hctx
    exact ⟨⟨hfibers, hmade, ⟨hr, .inl ht⟩⟩, fun _ h => h, by simp [Thread.resume]⟩
  | last r =>
    rw [hc] at hctx
    exact absurd rfl hctx.1

lemma Tracked.leave (hs : Tracked s) (hf : f < s.nextFiber) (hdone : s.Done f → st.isDone = true)
    (hhere : here.Stored s.nextFiber f st.isDone) : Steady s (s.leave f st here) := by
  set s₁ : Thread κ ℓ :=
    Thread.update { s.setState f st with tFiber := 0 } f fun fb => { fb with ctx := here } with hs₁
  have hfibers : s₁.fibers =
      Function.update s.fibers f { s.fibers f with state := st, ctx := here } := by
    simp [hs₁, Thread.setState]
  have hstored : ∀ r, (s₁.fibers r).Stored s₁.nextFiber r := by
    rw [hfibers]
    exact hs.stored_update ⟨fun _ => hf, hhere⟩
  have hback : Steady s₁ (s.leave f st here) :=
    Tracked.back hstored (Nat.zero_lt_of_lt hs.made) rfl
  refine ⟨hback.toTracked, fun g hg => hback.done g ?_, hback.notBehind⟩
  unfold Thread.Done
  rw [hfibers]
  exact done_update hdone hg

lemma Tracked.enter (hs : Tracked s) (hf : f < s.nextFiber) (hg : g < s.nextFiber)
    (hlive : ¬s.Done g) : Steady s (s.enter (.at f next) g) := by
  by_cases hg0 : g = 0
  · -- the main fiber, which was reset: its continuation is the caller's own position
    subst hg0
    have hfibers : (s.enter (.at f next) 0).fibers =
        Function.update s.fibers 0 { s.fibers 0 with state := .running, ctx := .at f next } := by
      simp [Thread.enter, Thread.swap, Thread.setState]
    have hcontrol : (s.enter (.at f next) 0).control = .code f next := by
      simp [Thread.enter, Thread.swap, Thread.setState, Thread.resume]
    refine ⟨⟨?_, hg, by rw [hcontrol]; exact ⟨hf, .inl rfl⟩⟩, fun r hr => ?_, by simp [hcontrol]⟩
    · rw [hfibers]
      exact hs.stored_update ⟨fun h => (by cases h), hf⟩
    · unfold Thread.Done
      rw [hfibers]
      exact done_update (fun h => absurd h hlive) hr
  · have hfibers : (s.enter (.at f next) g).fibers = _ := Thread.fibers_enter hg0
    have hrun : ((s.enter (.at f next) g).fibers g).state = .running := by
      rw [hfibers, Function.update_of_ne hg0, Function.update_self]
    have hnot : ¬(s.enter (.at f next) g).Done g := by
      unfold Thread.Done
      rw [hrun]
      exact Bool.false_ne_true
    have hctx := (hs.fibers g).ctx
    -- it executes its own code, or ends without a function
    have hcontrol : (∃ k, (s.enter (.at f next) g).control = .code g k) ∨
        (s.enter (.at f next) g).control = .finish g .except := by
      cases hc : (s.fibers g).ctx with
      | entry =>
        rw [Thread.control_enter_entry hg0 hc]
        cases (s.fibers g).func with
        | some k => exact .inl ⟨k, rfl⟩
        | none => exact .inr rfl
      | «at» r k =>
        rw [hc, Cont.Stored, if_neg hg0] at hctx
        subst hctx
        exact .inl ⟨k, Thread.control_enter_at hg0 hc⟩
      | last r =>
        rw [hc] at hctx
        exact absurd hctx.2 hlive
    have hadmits : (s.enter (.at f next) g).Admits (s.enter (.at f next) g).control := by
      rcases hcontrol with ⟨k, hcontrol⟩ | hcontrol <;> rw [hcontrol]
      · exact ⟨hg, .inr ⟨rfl, hnot⟩⟩
      · exact ⟨hg, .inr rfl, rfl⟩
    refine ⟨⟨fun r => ?_, hg, hadmits⟩, fun r hr => ?_, fun r => ?_⟩
    · rw [hfibers]
      by_cases hr0 : r = 0
      · subst hr0
        rw [Function.update_self]
        exact ⟨(hs.fibers 0).made, hf⟩
      · rw [Function.update_of_ne hr0]
        refine hs.stored_update ⟨fun _ => hg, ?_⟩ r
        exact hctx.mono le_rfl fun h => absurd h hlive
    · unfold Thread.Done
      rw [hfibers]
      by_cases hr0 : r = 0
      · subst hr0
        rw [Function.update_self]
        exact hr
      · rw [Function.update_of_ne hr0]
        exact done_update (fun h => absurd h hlive) hr
    · rcases hcontrol with ⟨k, hcontrol⟩ | hcontrol <;> simp [hcontrol]

/-- A `call()`, of a fiber that is not done or is tested for. -/
lemma Tracked.call (hs : Tracked s) (hc : s.control = .code f k) (hg : g < s.nextFiber)
    (ht : s.Done g → (s.fibers g).state = .term) : Steady s (s.call f g next) := by
  have hcode : s.Admits (.code f next) := hs.admits_next hc
  by_cases hskip : (s.fibers g).main = true ∧ s.tFiber = 0
  · rw [Thread.call_skip hskip.2 hskip.1]
    exact hs.goOn hcode (by simp) s.trace
  rw [Thread.call_of_not hskip]
  split_ifs with hst
  · exact ⟨⟨hs.fibers, hg, trivial⟩, fun _ h => h, by simp⟩
  · exact hs.enter hcode.1 hg fun hd => hst (.inr (ht hd))

lemma Tracked.yieldAs (hs : Tracked s) (hc : s.control = .code f k) :
    Steady s (s.yieldAs st f next) := by
  have hcode : s.Admits (.code f next) := hs.admits_next hc
  by_cases ht : s.tFiber = 0
  · rw [Thread.yieldAs_of_main ht]
    exact hs.goOn hcode (by simp) s.trace
  · obtain ⟨htf, hlive⟩ := hcode.2.resolve_left ht
    have hf : f ≠ 0 := by
      rintro rfl
      exact ht htf
    rw [Thread.yieldAs_of_ne htf hf]
    refine hs.leave hcode.1 (fun hd => absurd hd hlive) ?_
    rw [Cont.Stored, if_neg hf]

lemma Tracked.finish (hs : Tracked s) (hc : s.control = .finish f st) :
    Tracked (s.finish f st) ∧ (∀ g, s.Done g → (s.finish f st).Done g) ∧
      ∀ r, (s.finish f st).control = .behind r → r = f := by
  obtain ⟨hf, ht, hst⟩ := hs.admits hc
  by_cases ht0 : s.tFiber = 0
  · have heq : s.finish f st = { s.setState f st with control := .behind f } := if_pos ht0
    have hfibers : (s.setState f st).fibers =
        Function.update s.fibers f { s.fibers f with state := st } := rfl
    rw [heq]
    refine ⟨⟨?_, hs.made, ht0⟩, fun g hg => ?_, fun r hr => ?_⟩
    · show ∀ r, ((s.setState f st).fibers r).Stored s.nextFiber r
      rw [hfibers]
      exact hs.stored_update ⟨fun _ => hf, (hs.fibers f).ctx.mono le_rfl fun _ => hst⟩
    · show ((s.setState f st).fibers g).state.isDone = true
      rw [hfibers]
      exact done_update (fun _ => hst) hg
    · cases hr
      rfl
  · have htf := ht.resolve_left ht0
    have hf0 : f ≠ 0 := by
      rintro rfl
      exact ht0 htf
    rw [Thread.finish_of_ne htf hf0]
    have hsteady : Steady s (s.leave f st (.last f)) := hs.leave hf (fun _ => hst) ⟨hf0, hst⟩
    exact ⟨hsteady.toTracked, hsteady.done, fun r hr => absurd hr (hsteady.notBehind r)⟩

lemma Tracked.make (hs : Tracked s) (hc : s.control = .code f k) (fn : κ) (isMain : Bool) :
    Steady s { s.make fn isMain with control := .code f next } := by
  obtain ⟨hf, ht⟩ := hs.admits hc
  have hfibers : (s.make fn isMain).fibers =
      Function.update s.fibers s.nextFiber { func := some fn, main := isMain } := rfl
  have hother : ∀ r, r < s.nextFiber → (s.make fn isMain).fibers r = s.fibers r := by
    intro r hr
    rw [hfibers, Function.update_of_ne (Nat.ne_of_lt hr)]
  have hnew : ∀ r, ((s.make fn isMain).fibers r).Stored (s.nextFiber + 1) r := by
    intro r
    by_cases hr : r = s.nextFiber
    · subst hr
      rw [hfibers, Function.update_self]
      exact ⟨fun h => (by cases h), trivial⟩
    · rw [hfibers, Function.update_of_ne hr]
      have hold := hs.fibers r
      exact ⟨fun h => Nat.lt_succ_of_lt (hold.made h), hold.ctx.mono (Nat.le_succ _) id⟩
  refine ⟨⟨hnew, Nat.lt_succ_of_lt hs.made, ⟨Nat.lt_succ_of_lt hf, ?_⟩⟩, fun g hg => ?_, by simp⟩
  · refine ht.imp id fun h => ⟨h.1, ?_⟩
    show ¬((s.make fn isMain).fibers f).state.isDone = true
    rw [hother f hf]
    exact h.2
  · show ((s.make fn isMain).fibers g).state.isDone = true
    rw [hother g ((hs.fibers g).made hg)]
    exact hg

/-- `reset()` makes its fiber `READY`, and no other one. -/
lemma Tracked.reset (hs : Tracked s) (hc : s.control = .code f k) (fn : Option κ) :
    Tracked { s.reset g fn with control := .code f next } ∧
      ∀ r, s.Done r → Thread.Done { s.reset g fn with control := .code f next } r ∨ r = g := by
  obtain ⟨hf, ht⟩ := hs.admits hc
  have hother : ∀ r, r ≠ g → (s.reset g fn).fibers r = s.fibers r := by
    intro r hr
    simp only [Thread.reset, Thread.fibers_update, Function.update_of_ne hr]
  have hready : ((s.reset g fn).fibers g).state = .ready := by
    simp only [Thread.reset, Thread.fibers_update, Function.update_self]
  refine ⟨⟨?_, hs.made, ⟨hf, ht.imp id fun h => ⟨h.1, fun hd => ?_⟩⟩⟩, fun r hr => ?_⟩
  · exact hs.stored_update ⟨fun h => (by cases h), trivial⟩
  · by_cases hfg : f = g
    · subst hfg
      unfold Thread.Done at hd
      rw [hready] at hd
      cases hd
    · unfold Thread.Done at hd
      rw [hother f hfg] at hd
      exact h.2 hd
  · by_cases hrg : r = g
    · exact .inr hrg
    · refine .inl ?_
      show ((s.reset g fn).fibers r).state.isDone = true
      rw [hother r hrg]
      exact hr

lemma Tracked.exec (hs : Tracked s) (hc : s.control = .code f k) (hG : CallsTested prog s ())
    (hstep : s.exec f (prog k) = some s') :
    Tracked s' ∧ (∀ g, s.Done g → s'.Done g ∨ Resets prog s g) ∧ ∀ r, s'.control ≠ .behind r := by
  have hsteady : Steady s s' →
      Tracked s' ∧ (∀ g, s.Done g → s'.Done g ∨ Resets prog s g) ∧ ∀ r, s'.control ≠ .behind r :=
    fun h => ⟨h.toTracked, fun g hg => .inl (h.done g hg), h.notBehind⟩
  have hcode : s.Admits (.code f k) := hs.admits hc
  have hends : ∀ st, st.isDone = true → s.Admits (.finish f st) := fun st hst =>
    ⟨hcode.1, hcode.2.imp id And.left, hst⟩
  cases hop : prog k with
  | work a next =>
    rw [hop] at hstep
    cases hstep
    exact hsteady (hs.goOn (hs.admits_next hc) (by simp) _)
  | make fn isMain next =>
    rw [hop] at hstep
    cases hstep
    exact hsteady (hs.make hc fn isMain)
  | call g next =>
    rw [hop, Thread.exec] at hstep
    split_ifs at hstep with hg
    cases hstep
    exact hsteady (hs.call hc hg fun hd => (hG g ⟨f, k, next, hc, hop⟩ hd).1)
  | reset g fn next =>
    rw [hop, Thread.exec] at hstep
    split_ifs at hstep with hg
    cases hstep
    have hresets : ∀ r, r = g → Resets prog s r := by
      rintro r rfl
      exact ⟨f, k, fn, next, hc, hop⟩
    exact ⟨(hs.reset hc fn).1, fun r hr => ((hs.reset hc fn).2 r hr).imp id (hresets r), by simp⟩
  | yield next =>
    rw [hop] at hstep
    cases hstep
    exact hsteady (hs.yieldAs hc)
  | yieldReady next =>
    rw [hop] at hstep
    cases hstep
    exact hsteady (hs.yieldAs hc)
  | ret =>
    rw [hop] at hstep
    cases hstep
    refine hsteady (hs.goOn ?_ (fun r => ?_) _)
    · split_ifs
      · trivial
      · exact hends .term rfl
    · split_ifs <;> simp
  | throw =>
    rw [hop] at hstep
    cases hstep
    refine hsteady (hs.goOn ?_ (fun r => ?_) _)
    · split_ifs
      · trivial
      · exact hends .except rfl
    · split_ifs <;> simp

lemma resume_not_aborted (s : Thread κ ℓ) (c : Cont κ) : (s.resume c).control ≠ .aborted := by
  cases c with
  | entry => cases h : (s.fibers s.tFiber).func <;> simp [Thread.resume, h]
  | «at» f k => simp [Thread.resume]
  | last f => simp [Thread.resume]

lemma call_aborted_iff : (s.call f g next).control = .aborted ↔
    ¬((s.fibers g).main = true ∧ s.tFiber = 0) ∧
      ((s.fibers g).state = .running ∨ (s.fibers g).state = .term) := by
  by_cases hskip : (s.fibers g).main = true ∧ s.tFiber = 0
  · rw [Thread.call_skip hskip.2 hskip.1]
    simp [hskip]
  · rw [Thread.call_of_not hskip]
    split_ifs with hst
    · simp [hskip, hst]
    · exact ⟨fun h => absurd h (resume_not_aborted _ _), fun h => absurd h.2 hst⟩

lemma call_of_calls (h : s.step prog () = some s') (hcall : Calls prog s g) :
    ∃ f next, s' = s.call f g next := by
  obtain ⟨f, k, next, hc, hop⟩ := hcall
  simp only [Thread.step, hc, hop, Thread.exec] at h
  split_ifs at h
  cases h
  exact ⟨f, next, rfl⟩

/-- **One step**, if the call it makes is tested. -/
lemma Tracked.step (hs : Tracked s) (hG : CallsTested prog s ()) (h : s.step prog () = some s') :
    Tracked s' ∧ KeepsDone prog s s' := by
  have hrejected : ∀ g, Calls prog s g → s.Done g → s'.control = .aborted := by
    intro g hcall hd
    obtain ⟨f, next, rfl⟩ := call_of_calls h hcall
    obtain ⟨hterm, hskip⟩ := hG g hcall hd
    exact call_aborted_iff.mpr ⟨hskip, .inr hterm⟩
  cases hc : s.control with
  | code f k =>
    simp only [Thread.step, hc] at h
    obtain ⟨hs', hdone, hbehind⟩ := hs.exec hc hG h
    exact ⟨hs', hdone, hrejected, fun r hr => absurd hr (hbehind r)⟩
  | finish f st =>
    simp only [Thread.step, hc] at h
    cases h
    obtain ⟨hs', hdone, hbehind⟩ := hs.finish hc
    refine ⟨hs', fun g hg => .inl (hdone g hg), hrejected, fun r hr => ?_⟩
    rw [hbehind r hr]
    exact ⟨st, hc⟩
  | behind f =>
    have ht : s.Admits (.behind f) := hs.admits hc
    have hsteady : Steady s s' := by
      simp only [Thread.step, hc] at h
      split_ifs at h
      · cases h
        exact Tracked.back hs.fibers (Nat.zero_lt_of_lt hs.made) ht
      · cases h
        have hexit : s.Admits (.exited f) := trivial
        exact hs.goOn hexit (by simp) _
    exact ⟨hsteady.toTracked, fun g hg => .inl (hsteady.done g hg), hrejected,
      fun r hr => absurd hr (hsteady.notBehind r)⟩
  | exited f => simp [Thread.step, hc] at h
  | aborted => simp [Thread.step, hc] at h

end Step

/-! ### Whole runs -/

section Runs

variable {prog : κ → Op κ ℓ} {s s' : Thread κ ℓ} {k : κ}

theorem Tracked.of_reach (h : Reach (Thread.step prog) (CallsTested prog) (Thread.start k) s) :
    Tracked s :=
  h.inv (Tracked.start k) fun _ hs hG hstep => (hs.step hG hstep).1

lemma KeepsDone.tested (h : KeepsDone prog s s') (hstep : s.step prog () = some s') :
    CallsTested prog s () := by
  intro g hcall hd
  have habort := h.rejected g hcall hd
  obtain ⟨f, next, rfl⟩ := call_of_calls hstep hcall
  obtain ⟨hskip, hst⟩ := call_aborted_iff.mp habort
  refine ⟨hst.resolve_left fun hrun => ?_, hskip⟩
  unfold Thread.Done at hd
  rw [hrun] at hd
  cases hd

/-- A fiber that is done stays so in every run that does not reset it. -/
lemma Tracked.done_of_reach (hs : Tracked s) {g : ℕ} (hd : s.Done g)
    (h : Reach (Thread.step prog) (fun s a => CallsTested prog s a ∧ ¬Resets prog s g) s s') :
    s'.Done g := by
  have hboth : Tracked s' ∧ s'.Done g := by
    refine h.inv (P := fun t => Tracked t ∧ t.Done g) ⟨hs, hd⟩ fun _ ht hG hstep => ?_
    obtain ⟨ht', hkeeps⟩ := ht.1.step hG.1 hstep
    exact ⟨ht', (hkeeps.done g ht.2).resolve_right hG.2⟩
  exact hboth.2

/-- **The fibers that are done, exactly.** As long as a thread's calls of them were tested, a step
respects them if and only if the call it makes is. So in every such run a fiber that is done stays so
until it is reset. -/
theorem done_kept_iff (prog : κ → Op κ ℓ) (k : κ) :
    (∀ s s', Reach (Thread.step prog) (CallsTested prog) (Thread.start k) s →
      s.step prog () = some s' → (KeepsDone prog s s' ↔ CallsTested prog s ())) ∧
    ∀ s s' g, Reach (Thread.step prog) (CallsTested prog) (Thread.start k) s → s.Done g →
      Reach (Thread.step prog) (fun s a => CallsTested prog s a ∧ ¬Resets prog s g) s s' →
        s'.Done g := by
  refine ⟨fun s s' hr hstep => ⟨fun h => h.tested hstep, fun hG => ?_⟩, fun s s' g hr hd h => ?_⟩
  · exact ((Tracked.of_reach hr).step hG hstep).2
  · exact (Tracked.of_reach hr).done_of_reach hd h

end Runs

/-- The main fiber calls a fiber twice, whose function throws. -/
def calledAgain : ℕ → Op ℕ Unit
  | 0 => .make 10 false fun _ => 1
  | 1 => .call 1 2
  | 2 => .call 1 3
  | 10 => .throw
  | _ => .ret

/-- **A fiber that has ended with an exception is resumed.** It becomes `RUNNING`, its `MainFunc` goes
on behind its last `yield()`, and the thread ends with it: the main fiber does not go on. -/
theorem except_resumed :
    ∃ s s' t, Reach (Thread.step calledAgain) Free (Thread.start 0) s ∧
      (s.fibers 1).state = .except ∧ Calls calledAgain s 1 ∧
      s.step calledAgain () = some s' ∧ (s'.fibers 1).state = .running ∧ s'.control = .behind 1 ∧
      ¬KeepsDone calledAgain s s' ∧ s'.step calledAgain () = some t ∧ t.control = .exited 1 := by
  have hrun : (run (Thread.step calledAgain) (fun _ _ => true) (Thread.start 0)
      (List.replicate 4 ())).any (fun s => decide ((s.fibers 1).state = .except ∧
        s.control = .code 0 2 ∧ (s.step calledAgain ()).any (fun s' =>
          decide ((s'.fibers 1).state = .running ∧ s'.control = .behind 1 ∧
            (s'.step calledAgain ()).any (fun t => decide (t.control = .exited 1)))))) = true := by
    decide +kernel
  obtain ⟨s, hr, hs⟩ := exists_reach_of_run (G := Free) (fun _ _ _ => trivial) hrun
  obtain ⟨hexcept, hcontrol, hstep⟩ := of_decide_eq_true hs
  obtain ⟨s', hs', hafter⟩ := (Option.any_eq_true _ _).mp hstep
  obtain ⟨hrunning, hbehind, hstep'⟩ := of_decide_eq_true hafter
  obtain ⟨t, ht, hexit⟩ := (Option.any_eq_true _ _).mp hstep'
  have hcalls : Calls calledAgain s 1 := ⟨0, 2, 3, hcontrol, rfl⟩
  have hdone : s.Done 1 := by
    unfold Thread.Done
    rw [hexcept]
    rfl
  refine ⟨s, s', t, hr, hexcept, hcalls, hs', hrunning, hbehind, fun h => ?_, ht,
    of_decide_eq_true hexit⟩
  have habort := h.rejected 1 hcalls hdone
  rw [hbehind] at habort
  cases habort

end Eva01.Fibers
