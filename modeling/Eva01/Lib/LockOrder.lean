import Eva01.Lib.Runs
import Mathlib

/-!
Locks that are taken in order, by any number of threads.

The lock skeleton of a piece of code (`Code`) says which locks it takes and gives back on its way:
one after the other, on either of two branches, any number of times, and the code that runs while a
guard object is alive. A run of the code leaves a trace of acquisitions and releases (`Code.Trace`).

A lock is taken shared or exclusively. A thread that comes to a lock held in a conflicting mode
waits, also if it is the thread itself that holds it. If every code takes its locks in the order of a
rank (`Code.Above`), then the threads do not block each other: from every state that any calls by any
threads have led to, the calls that are under way can all be brought to their end (`calls_end`). This
holds even if a lock is not given to a reader while a writer waits for it (`Granted`).

Types: `L` for the locks, `T` for the threads.
-/

namespace Eva01.Lib.LockOrder

open Eva01.Lib.Runs

variable {L T : Type*}

/-! ### Code and traces -/

inductive Mode
  | shared
  | exclusive
  deriving DecidableEq, Repr

inductive Event (L : Type*)
  | acquire (m : Mode) (l : L)
  | release (l : L)
  deriving DecidableEq, Repr

/-- What a piece of code does with locks. -/
inductive Code (L : Type*)
  | skip
  | seq (a b : Code L)
  | either (a b : Code L)
  /-- One of the codes. -/
  | pick (a : ℕ → Code L)
  /-- A loop around the code. -/
  | many (a : Code L)
  /-- The scope of a guard object, which gives the lock back at its end. -/
  | guard (m : Mode) (l : L) (a : Code L)

namespace Code

/-- A branch that is taken or not. -/
def opt (a : Code L) : Code L := .either a .skip

inductive Trace : Code L → List (Event L) → Prop
  | skip : Trace .skip []
  | seq {a b : Code L} {p q : List (Event L)} :
      Trace a p → Trace b q → Trace (.seq a b) (p ++ q)
  | left {a b : Code L} {p : List (Event L)} : Trace a p → Trace (.either a b) p
  | right {a b : Code L} {p : List (Event L)} : Trace b p → Trace (.either a b) p
  | pick {a : ℕ → Code L} {k : ℕ} {p : List (Event L)} : Trace (a k) p → Trace (.pick a) p
  | stop {a : Code L} : Trace (.many a) []
  | again {a : Code L} {p q : List (Event L)} :
      Trace a p → Trace (.many a) q → Trace (.many a) (p ++ q)
  | guard {m : Mode} {l : L} {a : Code L} {p : List (Event L)} :
      Trace a p → Trace (.guard m l a) (.acquire m l :: (p ++ [.release l]))

/-- The code takes locks of rank `r` and above, each while it holds only lower ones. -/
def Above (rank : L → ℕ) : ℕ → Code L → Prop
  | _, .skip => True
  | r, .seq a b => Above rank r a ∧ Above rank r b
  | r, .either a b => Above rank r a ∧ Above rank r b
  | r, .pick a => ∀ k, Above rank r (a k)
  | r, .many a => Above rank r a
  | r, .guard _ l a => r ≤ rank l ∧ Above rank (rank l + 1) a

end Code

/-- The events, from a state in which `held` is held, the last one first: a lock is taken above those
that are held, the one given back is the last that was taken, and in the end none is held. -/
def Legal (rank : L → ℕ) : List L → List (Event L) → Prop
  | held, [] => held = []
  | held, .acquire _ l :: p => (∀ l' ∈ held, rank l' < rank l) ∧ Legal rank (l :: held) p
  | held, .release l :: p => ∃ rest, held = l :: rest ∧ Legal rank rest p

section Traces

variable {rank : L → ℕ} {r : ℕ} {a : Code L} {p q : List (Event L)} {held : List L}

lemma Code.Above.opt (h : a.Above rank r) : a.opt.Above rank r := ⟨h, trivial⟩

/-- **The trace of a code that respects the ranks is legal**, whatever lower locks are held around it
and whatever legal events come behind it. -/
theorem Code.Trace.legal (ht : a.Trace p) (ha : a.Above rank r) (hheld : ∀ l ∈ held, rank l < r)
    (hq : Legal rank held q) : Legal rank held (p ++ q) := by
  induction ht generalizing r held q with
  | skip => exact hq
  | seq _ _ ih ih' =>
    rw [List.append_assoc]
    exact ih ha.1 hheld (ih' ha.2 hheld hq)
  | left _ ih => exact ih ha.1 hheld hq
  | right _ ih => exact ih ha.2 hheld hq
  | pick _ ih => exact ih (ha _) hheld hq
  | stop => exact hq
  | again _ _ ih ih' =>
    rw [List.append_assoc]
    exact ih ha hheld (ih' ha hheld hq)
  | @guard m l a p _ ih =>
    obtain ⟨hr, hbody⟩ := ha
    have hlow : ∀ l' ∈ held, rank l' < rank l := fun l' hl' => (hheld l' hl').trans_le hr
    have hin : ∀ l' ∈ l :: held, rank l' < rank l + 1 := by
      intro l' hl'
      rcases List.mem_cons.1 hl' with rfl | hl'
      · exact Nat.lt_succ_self _
      · exact (hlow l' hl').trans (Nat.lt_succ_self _)
    have hrelease : Legal rank (l :: held) (.release l :: q) := ⟨held, rfl, hq⟩
    rw [List.cons_append, List.append_assoc]
    exact ⟨hlow, ih hbody hin hrelease⟩

end Traces

/-! ### Threads -/

/-- What each thread still has to do in its call, and the locks it holds, the last one first. -/
structure State (T L : Type*) where
  todo : T → List (Event L) := fun _ => []
  held : T → List (Mode × L) := fun _ => []

inductive Act (T L : Type*)
  /-- A thread that is in no call makes one. -/
  | call (t : T) (p : List (Event L))
  /-- The next event of the call. -/
  | go (t : T)

namespace State

/-- Nobody holds the lock in a mode that conflicts. -/
def Free (s : State T L) (m : Mode) (l : L) : Prop :=
  ∀ t, ∀ h ∈ s.held t, h.2 = l → m = .shared ∧ h.1 = .shared

instance [Fintype T] [DecidableEq L] (s : State T L) (m : Mode) (l : L) : Decidable (s.Free m l) :=
  inferInstanceAs (Decidable (∀ t, ∀ h ∈ s.held t, h.2 = l → m = .shared ∧ h.1 = .shared))

def set [DecidableEq T] (s : State T L) (t : T) (todo : List (Event L)) (held : List (Mode × L)) :
    State T L where
  todo := Function.update s.todo t todo
  held := Function.update s.held t held

variable [Fintype T] [DecidableEq T] [DecidableEq L]

def step (s : State T L) : Act T L → Option (State T L)
  | .call t p => if s.todo t = [] then some (s.set t p (s.held t)) else none
  | .go t =>
      match s.todo t with
      | [] => none
      | .acquire m l :: p => if s.Free m l then some (s.set t p ((m, l) :: s.held t)) else none
      | .release l :: p =>
          match s.held t with
          | h :: rest => if h.2 = l then some (s.set t p rest) else none
          | [] => none

end State

/-- A thread waits for the lock to take it exclusively. -/
def State.Waited (s : State T L) (l : L) : Prop := ∃ t p, s.todo t = .acquire .exclusive l :: p

/-- The step is no new call, and it takes no lock as a reader that a writer waits for. -/
def Granted (s : State T L) : Act T L → Prop
  | .call _ _ => False
  | .go t => ∀ l p, s.todo t = .acquire .shared l :: p → ¬s.Waited l

/-- The calls that are made respect the ranks. -/
def Ranked (rank : L → ℕ) (_ : State T L) : Act T L → Prop
  | .call _ p => Legal rank [] p
  | .go _ => True

/-- What each thread has to do is legal with what it holds. -/
def Ordered (rank : L → ℕ) (s : State T L) : Prop :=
  ∀ t, Legal rank ((s.held t).map Prod.snd) (s.todo t)

/-- No call is under way. -/
def Quiet (s : State T L) : Prop := ∀ t, s.todo t = []

section Ordered

variable {rank : L → ℕ} {s : State T L}

lemma Ordered.set [DecidableEq T] (hs : Ordered rank s) {t : T} {todo : List (Event L)}
    {held : List (Mode × L)} (h : Legal rank (held.map Prod.snd) todo) :
    Ordered rank (s.set t todo held) := by
  intro t'
  by_cases ht : t' = t
  · subst ht
    simpa [State.set] using h
  · simpa [State.set, Function.update_of_ne ht] using hs t'

lemma Ordered.held_eq_nil (hs : Ordered rank s) {t : T} (ht : s.todo t = []) : s.held t = [] := by
  have h := hs t
  rw [ht] at h
  exact List.map_eq_nil_iff.1 h

/-- The lock that the thread comes to next, if its next event is to take one. -/
def State.next (s : State T L) (t : T) : Option L :=
  match s.todo t with
  | .acquire _ l :: _ => some l
  | _ => none

/-- Somebody who holds a lock and has come to another has come to a higher one. -/
lemma Ordered.rank_lt (hs : Ordered rank s) {t : T} {h : Mode × L} (hh : h ∈ s.held t) {l : L}
    (hl : s.next t = some l) : rank h.2 < rank l := by
  have hlegal := hs t
  unfold State.next at hl
  split at hl
  · rename_i m l' p htodo
    cases hl
    rw [htodo] at hlegal
    exact hlegal.1 _ (List.mem_map_of_mem hh)
  · cases hl

end Ordered

section Progress

variable [Fintype T] [DecidableEq T] [DecidableEq L] {rank : L → ℕ} {s s' : State T L} {a : Act T L}

lemma State.go_acquire {t : T} {m : Mode} {l : L} {p : List (Event L)}
    (htodo : s.todo t = .acquire m l :: p) (hfree : s.Free m l) :
    s.step (.go t) = some (s.set t p ((m, l) :: s.held t)) := by
  simp only [State.step, htodo, if_pos hfree]

lemma State.go_release {t : T} {h : Mode × L} {rest : List (Mode × L)} {p : List (Event L)}
    (htodo : s.todo t = .release h.2 :: p) (hheld : s.held t = h :: rest) :
    s.step (.go t) = some (s.set t p rest) := by
  simp only [State.step, htodo, hheld, if_true]

lemma State.go_inv {t : T} (h : s.step (.go t) = some s') :
    (∃ m l p, s.todo t = .acquire m l :: p ∧ s' = s.set t p ((m, l) :: s.held t)) ∨
      ∃ h p rest, s.todo t = .release h.2 :: p ∧ s.held t = h :: rest ∧ s' = s.set t p rest := by
  rw [State.step] at h
  split at h
  · cases h
  · rename_i m l p htodo
    split_ifs at h
    exact .inl ⟨m, l, p, htodo, (Option.some.inj h).symm⟩
  · rename_i l p htodo
    split at h
    · rename_i x rest hheld
      split_ifs at h with hx
      exact .inr ⟨x, p, rest, hx ▸ htodo, hheld, (Option.some.inj h).symm⟩
    · cases h

lemma Ordered.step (hs : Ordered rank s) (ha : Ranked rank s a) (h : s.step a = some s') :
    Ordered rank s' := by
  cases a with
  | call t p =>
    rw [State.step] at h
    split_ifs at h with ht
    cases h
    refine hs.set ?_
    rw [hs.held_eq_nil ht]
    exact ha
  | go t =>
    have hlegal := hs t
    rcases State.go_inv h with ⟨m, l, p, htodo, rfl⟩ | ⟨x, p, rest, htodo, hheld, rfl⟩
    · rw [htodo] at hlegal
      exact hs.set hlegal.2
    · rw [htodo, hheld] at hlegal
      obtain ⟨low, heq, hlow⟩ := hlegal
      refine hs.set ?_
      rwa [(List.cons.inj heq).2]

/-- A thread can take its next step. -/
def State.Goes (s : State T L) (t : T) : Prop :=
  Granted s (.go t) ∧ ∃ s', s.step (.go t) = some s'

/-- A thread in a call that cannot go on has come to a lock, which somebody holds or a writer waits
for. -/
lemma Ordered.blocked (hs : Ordered rank s) {t : T} (hbusy : s.todo t ≠ []) (hstuck : ¬s.Goes t) :
    ∃ l, s.next t = some l ∧ ((∃ t', ∃ h ∈ s.held t', h.2 = l) ∨ s.Waited l) := by
  cases htodo : s.todo t with
  | nil => exact absurd htodo hbusy
  | cons e p =>
    cases e with
    | release l =>
      -- the lock is the last one taken, so nothing is in the way
      exfalso
      have hlegal := hs t
      rw [htodo] at hlegal
      obtain ⟨low, heq, -⟩ := hlegal
      obtain ⟨x, rest, hheld, rfl, -⟩ := List.map_eq_cons_iff.1 heq
      have hgrant : Granted s (.go t) := by
        intro l' p' h
        rw [htodo] at h
        cases h
      exact hstuck ⟨hgrant, _, State.go_release htodo hheld⟩
    | acquire m l =>
      refine ⟨l, by rw [State.next, htodo], ?_⟩
      by_contra hnone
      obtain ⟨hfree, hwait⟩ := not_or.1 hnone
      have hgrant : Granted s (.go t) := by
        intro l' p' h
        rw [htodo] at h
        cases h
        exact hwait
      have hgo := State.go_acquire htodo fun t' h hh hl => absurd ⟨t', h, hh, hl⟩ hfree
      exact hstuck ⟨hgrant, _, hgo⟩

/-- **Some thread can go on**, as long as a call is under way: of those that have come to a lock, one
that has come to a highest lock. -/
theorem Ordered.exists_goes (hs : Ordered rank s) (hbusy : ¬Quiet s) :
    ∃ t, s.todo t ≠ [] ∧ s.Goes t := by
  by_contra hnone
  have hstuck : ∀ t, s.todo t ≠ [] → ¬s.Goes t := fun t ht hgo => hnone ⟨t, ht, hgo⟩
  -- the threads in a call have all come to a lock; let `t` be one with a highest
  obtain ⟨t₀, ht₀⟩ := not_forall.1 hbusy
  have hne : (Finset.univ.filter fun t => s.todo t ≠ []).Nonempty :=
    ⟨t₀, Finset.mem_filter.2 ⟨Finset.mem_univ _, ht₀⟩⟩
  obtain ⟨t, ht, hmax⟩ := Finset.exists_max_image _ (fun t => (s.next t).elim 0 rank) hne
  have htbusy := (Finset.mem_filter.1 ht).2
  obtain ⟨l, hl, hwhy⟩ := hs.blocked htbusy (hstuck t htbusy)
  -- whoever held that lock would be in a call, and have come to a higher one
  have hholder : ¬∃ t', ∃ h ∈ s.held t', h.2 = l := by
    rintro ⟨t', h, hh, hhl⟩
    have htbusy' : s.todo t' ≠ [] := by
      intro hnil
      rw [hs.held_eq_nil hnil] at hh
      cases hh
    obtain ⟨l', hl', -⟩ := hs.blocked htbusy' (hstuck t' htbusy')
    have hlt := hs.rank_lt hh hl'
    have hle := hmax t' (Finset.mem_filter.2 ⟨Finset.mem_univ _, htbusy'⟩)
    simp only [hl, hl', Option.elim_some] at hle
    rw [hhl] at hlt
    omega
  -- so a writer waits for it, and nobody keeps it from the writer
  obtain ⟨w, p, hw⟩ := hwhy.resolve_left hholder
  have hgrant : Granted s (.go w) := by
    intro l' p' h
    rw [hw] at h
    cases h
  have hgo := State.go_acquire hw fun t' h hh hhl => absurd ⟨t', h, hh, hhl⟩ hholder
  exact hstuck w (by rw [hw]; exact List.cons_ne_nil _ _) ⟨hgrant, _, hgo⟩

/-- The events still to come. -/
def State.left (s : State T L) : ℕ := ∑ t, (s.todo t).length

omit [DecidableEq L] in
lemma State.left_set {t : T} {e : Event L} {p : List (Event L)} (htodo : s.todo t = e :: p)
    (held : List (Mode × L)) : (s.set t p held).left < s.left := by
  refine Finset.sum_lt_sum (fun t' _ => ?_) ⟨t, Finset.mem_univ _, ?_⟩
  · by_cases ht : t' = t
    · subst ht
      simp [State.set, htodo]
    · simp [State.set, Function.update_of_ne ht]
  · simp [State.set, htodo]

lemma State.left_go {t : T} (h : s.step (.go t) = some s') : s'.left < s.left := by
  rcases State.go_inv h with ⟨m, l, p, htodo, rfl⟩ | ⟨x, p, rest, htodo, -, rfl⟩
  · exact State.left_set htodo _
  · exact State.left_set htodo _

theorem Ordered.quiesces (hs : Ordered rank s) :
    ∃ s', Reach State.step Granted s s' ∧ Quiet s' := by
  induction hleft : s.left using Nat.strong_induction_on generalizing s with
  | _ n ih =>
    by_cases hquiet : Quiet s
    · exact ⟨s, .refl, hquiet⟩
    · obtain ⟨t, -, hgrant, s₁, hs₁⟩ := hs.exists_goes hquiet
      have hlt := State.left_go hs₁
      have hranked : Ranked rank s (.go t) := trivial
      obtain ⟨s', hreach, hend⟩ := ih s₁.left (hleft ▸ hlt) (hs.step hranked hs₁) rfl
      exact ⟨s', (Reach.refl.tail hgrant hs₁).trans hreach, hend⟩

/-- **No deadlock.** From every state that calls with ranked locks lead to, the calls under way can be
brought to their end, with no lock given to a reader while a writer waits for it. -/
theorem calls_end (h : Reach State.step (Ranked rank) ({} : State T L) s) :
    ∃ s', Reach State.step Granted s s' ∧ Quiet s' := by
  have hs : Ordered rank s :=
    h.inv (fun _ => rfl) fun _ hs ha hstep => hs.step ha hstep
  exact hs.quiesces

end Progress

end Eva01.Lib.LockOrder
