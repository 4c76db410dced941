import Mathlib

/-!
Programs that run against an outside they know nothing of.

The outside is a machine: it is in a state, gets a request, and gives an answer in a new state. A
program has local data, makes requests and may fail; what it did is a value, the new local data, the
new state of the outside and the trace of the requests. Two programs with the same value, data and
trace are the same to whoever calls them.

The rules run a program step by step: a `bind` goes on with what its first part left. `Asks` says
which requests a program makes, whatever it is answered.
-/

namespace Eva01.Lib.Interact

/-- The outside, the local data, and the requests made so far. -/
structure World (σ Q L : Type) where
  out : σ
  loc : L
  trace : List Q := []
  deriving DecidableEq

/-- A program with requests in `Q`, local data in `L` and failures in `F`. -/
abbrev Prog (σ Q L F : Type) := StateT (World σ Q L) (Except F)

variable {σ Q A L F α β : Type}

/-- A request. -/
def ask (answer : σ → Q → A × σ) (q : Q) : Prog σ Q L F A := fun w =>
  .ok ((answer w.out q).1, { w with out := (answer w.out q).2, trace := w.trace ++ [q] })

/-- What the outside shows without being asked, such as memory that is read. -/
def look (view : σ → α) : Prog σ Q L F α := fun w => .ok (view w.out, w)

/-- What the program itself writes to memory that the outside shows. -/
def poke (g : σ → σ) : Prog σ Q L F Unit := fun w => .ok ((), { w with out := g w.out })

def getLoc : Prog σ Q L F L := fun w => .ok (w.loc, w)

def modifyLoc (g : L → L) : Prog σ Q L F Unit := fun w => .ok ((), { w with loc := g w.loc })

def fail (f : F) : Prog σ Q L F α := fun _ => .error f

/-- A value that may have failed. -/
def ofExcept (x : Except F α) : Prog σ Q L F α := fun w => x.map fun a => (a, w)

section Rules

variable {x : Prog σ Q L F α} {k : α → Prog σ Q L F β} {w w' : World σ Q L} {a : α}

@[simp] theorem pure_apply : (pure a : Prog σ Q L F α) w = .ok (a, w) := rfl

@[simp] theorem bind_apply : (x >>= k) w = (x w).bind fun r => k r.1 r.2 := rfl

@[simp] theorem map_apply {f : α → β} : (f <$> x) w = (x w).map fun r => (f r.1, r.2) := by
  rw [← bind_pure_comp, bind_apply]
  cases x w <;> rfl

@[simp] theorem ask_apply {answer : σ → Q → A × σ} {q : Q} :
    (ask answer q : Prog σ Q L F A) w =
      .ok ((answer w.out q).1, { w with out := (answer w.out q).2, trace := w.trace ++ [q] }) := rfl

@[simp] theorem look_apply {view : σ → α} :
    (look view : Prog σ Q L F α) w = .ok (view w.out, w) := rfl

@[simp] theorem poke_apply {g : σ → σ} :
    (poke g : Prog σ Q L F Unit) w = .ok ((), { w with out := g w.out }) := rfl

@[simp] theorem getLoc_apply : (getLoc : Prog σ Q L F L) w = .ok (w.loc, w) := rfl

@[simp] theorem modifyLoc_apply {g : L → L} :
    (modifyLoc g : Prog σ Q L F Unit) w = .ok ((), { w with loc := g w.loc }) := rfl

@[simp] theorem fail_apply {f : F} : (fail f : Prog σ Q L F α) w = .error f := rfl

@[simp] theorem ofExcept_apply {e : Except F α} :
    (ofExcept e : Prog σ Q L F α) w = e.map fun a => (a, w) := rfl

@[simp] theorem ok_bind {ε : Type} {f : α → Except ε β} :
    Except.bind (.ok a : Except ε α) f = f a := rfl

@[simp] theorem error_bind {ε : Type} {e : ε} {f : α → Except ε β} :
    Except.bind (.error e : Except ε α) f = .error e := rfl

@[simp] theorem ok_map {ε : Type} {f : α → β} : Except.map f (.ok a : Except ε α) = .ok (f a) := rfl

@[simp] theorem error_map {ε : Type} {e : ε} {f : α → β} :
    Except.map f (.error e : Except ε α) = .error e := rfl

@[simp] theorem ite_apply {c : Prop} [Decidable c] {y : Prog σ Q L F α} :
    (if c then x else y) w = if c then x w else y w := by split <;> rfl

end Rules

/-! ### Which requests are made -/

/-- A program that only makes requests in `P`, and forgets none that were made before. -/
def Asks (P : Q → Prop) (x : Prog σ Q L F α) : Prop :=
  ∀ w a w', x w = .ok (a, w') → ∃ l, w'.trace = w.trace ++ l ∧ ∀ q ∈ l, P q

namespace Asks

variable {P : Q → Prop} {x : Prog σ Q L F α} {k : α → Prog σ Q L F β}

lemma of_trace (h : ∀ w a w', x w = .ok (a, w') → w'.trace = w.trace) : Asks P x := fun w a w' hx =>
  ⟨[], by rw [h w a w' hx, List.append_nil], fun _ hq => absurd hq List.not_mem_nil⟩

lemma pure (a : α) : Asks P (pure a : Prog σ Q L F α) := .of_trace (by simp)

lemma modifyLoc (g : L → L) : Asks P (modifyLoc g : Prog σ Q L F Unit) := .of_trace (by simp)

lemma ask {answer : σ → Q → A × σ} {q : Q} (h : P q) :
    Asks P (ask answer q : Prog σ Q L F A) := by
  intro w a w' hx
  cases hx
  exact ⟨[q], rfl, fun q' hq' => by rwa [List.mem_singleton.1 hq']⟩

lemma bind (hx : Asks P x) (hk : ∀ a, Asks P (k a)) : Asks P (x >>= k) := by
  intro w b w' h
  rw [bind_apply] at h
  rcases hxw : x w with f | ⟨a, w₁⟩
  · rw [hxw] at h
    cases h
  · rw [hxw] at h
    obtain ⟨l, hl, hP⟩ := hx w a w₁ hxw
    obtain ⟨l', hl', hP'⟩ := hk a w₁ b w' h
    refine ⟨l ++ l', by rw [hl', hl, List.append_assoc], fun q hq => ?_⟩
    rcases List.mem_append.1 hq with hq | hq
    · exact hP q hq
    · exact hP' q hq

lemma ite {c : Prop} [Decidable c] {y : Prog σ Q L F α} (hx : c → Asks P x) (hy : ¬c → Asks P y) :
    Asks P (if c then x else y) := by
  split
  · exact hx ‹_›
  · exact hy ‹_›

end Asks

end Eva01.Lib.Interact
