import Eva01.Runtime.Refines

/-!
Every function handed to `schedule` is started once, and each of its segments runs once, as long as
a fiber is only woken once no worker has it any more (`started_once`).

On the board a ticket goes from the task list into the hands of a worker, from there into one fiber,
and the fiber begins its segments one after the other. `Orderly` says so: a ticket is in one place,
and the segments begun of it are an initial part of `0, 1, 2, …`, as long as the fiber it is in has
counted.
-/

namespace Eva01.Runtime

open Eva01.IOManager (Target)
open Eva01.Lib.Runs

variable {κ : Type*} {n N : ℕ}

/-! ### Where a ticket is -/

/-- The ticket of a task, with the tickets of the fibers given. -/
def Work.ticketIn (ticket : ℕ → Option ℕ) : Work κ N → Option ℕ
  | .fiber f => ticket f
  | .func _ T => some T

/-- The ticket a worker has not begun yet. -/
def Stage.waiting (ticket : ℕ → Option ℕ) : Stage κ N → Option ℕ
  | .hand w => w.ticketIn ticket
  | .loaded f => ticket f
  | _ => none

/-- The ticket `T` as a function that is in no fiber yet. -/
def Work.issued (T : ℕ) : Work κ N → ℕ
  | .fiber _ => 0
  | .func _ T' => one T T'

def Stage.issued (T : ℕ) : Stage κ N → ℕ
  | .hand w => w.issued T
  | _ => 0

/-- `F` as a fiber that runs. -/
def Stage.runs (F : ℕ) : Stage κ N → ℕ
  | .running f => one F f
  | _ => 0

/-- The segments of the ticket `T` that have begun, in order. -/
def Ledger.segments (l : Ledger κ N) (T : ℕ) : List ℕ :=
  l.trace.filterMap fun e => if e.1 = T then some e.2.1 else none

namespace Board

/-- `T` is in the task list, or with a worker that has not begun it. -/
def Waits (b : Board κ n N) (T : ℕ) : Prop :=
  (∃ tk ∈ b.tasks, tk.work.ticketIn b.ticket = some T) ∨
    ∃ i, (b.stage i).waiting b.ticket = some T

/-- The places where `T` is a function that is in no fiber yet. -/
def issued (b : Board κ n N) (T : ℕ) : ℕ :=
  (b.tasks.map fun tk => tk.work.issued T).sum + ∑ i, (b.stage i).issued T

/-- The workers that run `F`. -/
def runs (b : Board κ n N) (F : ℕ) : ℕ := ∑ i, (b.stage i).runs F

end Board

/-- Tickets are in order. -/
structure Orderly (b : Board κ n N) : Prop where
  /-- a ticket in a fiber has been issued -/
  loaded : ∀ F T, b.ticket F = some T → T < b.nextTicket
  /-- and is in one fiber only -/
  single : ∀ F F' T, b.ticket F = some T → b.ticket F' = some T → F = F'
  /-- or in one place outside of fibers -/
  once : ∀ T, b.issued T ≤ 1
  unbegun : ∀ T, 0 < b.issued T →
    T < b.nextTicket ∧ b.segments T = [] ∧ ∀ F, b.ticket F ≠ some T
  /-- the segments begun are those the fiber has counted -/
  begun : ∀ F T, b.ticket F = some T → b.segments T = List.range (b.seg F + b.runs F)
  fresh : ∀ T, b.nextTicket ≤ T → b.segments T = []
  range : ∀ T, b.segments T = List.range (b.segments T).length
  /-- a ticket has begun, or waits -/
  waits : ∀ T, T < b.nextTicket → b.segments T ≠ [] ∨ b.Waits T

section Moves

variable {b b' : Board κ n N} {i : Fin n} {f T F : ℕ} {l : Ledger κ N} {st : Stage κ N}

@[simp] lemma Board.put_toLedger : (b.put l i st).toLedger = l := rfl

lemma Board.sum_put (b : Board κ n N) (l : Ledger κ N) (i : Fin n) (st : Stage κ N)
    (v : Stage κ N → ℕ) :
    ∑ j, v ((b.put l i st).stage j) + v (b.stage i) = ∑ j, v (b.stage j) + v st := by
  have h := sum_changed (fun j => v (b.stage j)) (fun j => v ((b.put l i st).stage j)) i
    fun j hj => by simp [Board.put, Function.update_of_ne hj]
  have hself : (b.put l i st).stage i = st := Function.update_self _ _ _
  rwa [hself] at h

lemma Board.issued_put (b : Board κ n N) (l : Ledger κ N) (i : Fin n) (st : Stage κ N) (T : ℕ) :
    (b.put l i st).issued T +
        ((b.tasks.map fun tk => tk.work.issued T).sum + (b.stage i).issued T) =
      b.issued T + ((l.tasks.map fun tk => tk.work.issued T).sum + st.issued T) := by
  have h := b.sum_put l i st fun st => st.issued T
  have htasks : (b.put l i st).tasks = l.tasks := rfl
  simp only [Board.issued, htasks]
  omega

lemma Board.issued_put_eq (htasks : l.tasks = b.tasks) (hst : st.issued T = (b.stage i).issued T) :
    (b.put l i st).issued T = b.issued T := by
  have hsum := b.issued_put l i st T
  rw [htasks] at hsum
  omega

lemma Board.runs_put (b : Board κ n N) (l : Ledger κ N) (i : Fin n) (st : Stage κ N) (F : ℕ) :
    (b.put l i st).runs F + (b.stage i).runs F = b.runs F + st.runs F :=
  b.sum_put l i st fun st => st.runs F

lemma Stage.runs_of_fiber {st : Stage κ N} (h : st.fiber ≠ some F) : st.runs F = 0 := by
  cases st with
  | running f => exact one_of_ne fun hf => h (by rw [hf]; rfl)
  | _ => rfl

lemma Board.Alone.runs (h : b.Alone i F) : b.runs F = (b.stage i).runs F :=
  Finset.sum_eq_single i (fun j _ hj => Stage.runs_of_fiber (h.2 j hj))
    fun hi => absurd (Finset.mem_univ i) hi

lemma Board.Absent.runs (h : b.Absent F) : b.runs F = 0 :=
  Finset.sum_eq_zero fun j _ => Stage.runs_of_fiber (h.2 j)

lemma Board.waiting_put {ticket : ℕ → Option ℕ} {j : Fin n} (hj : j ≠ i) :
    ((b.put l i st).stage j).waiting ticket = (b.stage j).waiting ticket := by
  simp [Board.put, Function.update_of_ne hj]

lemma Work.ticketIn_update {w : Work κ N} {ticket : ℕ → Option ℕ} {t : Option ℕ}
    (h : w ≠ .fiber f) : w.ticketIn (Function.update ticket f t) = w.ticketIn ticket := by
  cases w with
  | fiber f' => exact Function.update_of_ne (fun hf => h (by rw [hf])) _ _
  | func g T => rfl

lemma Stage.waiting_update {st : Stage κ N} {ticket : ℕ → Option ℕ} {t : Option ℕ}
    (h : st.fiber ≠ some f) : st.waiting (Function.update ticket f t) = st.waiting ticket := by
  cases st with
  | hand w =>
      refine Work.ticketIn_update ?_
      rintro rfl
      exact h rfl
  | loaded f' => exact Function.update_of_ne (fun hf => h (by rw [hf]; rfl)) _ _
  | _ => rfl

/-- Moves that leave the tickets, the segments counted and the places of functions alone. -/
lemma Orderly.of_same (h : Orderly b) (hn : b'.nextTicket = b.nextTicket)
    (ht : b'.ticket = b.ticket) (hs : ∀ F, b'.seg F + b'.runs F = b.seg F + b.runs F)
    (htr : b'.trace = b.trace) (hi : ∀ T, b'.issued T = b.issued T)
    (hw : ∀ T, b.Waits T → b'.Waits T) : Orderly b' := by
  have hseg : ∀ T, b'.segments T = b.segments T := fun T => by simp only [Ledger.segments, htr]
  refine ⟨?_, ?_, ?_, ?_, ?_, ?_, ?_, ?_⟩
  · rw [ht, hn]; exact h.loaded
  · rw [ht]; exact h.single
  · intro T; rw [hi]; exact h.once T
  · intro T hT; rw [hi] at hT; rw [hn, ht, hseg]; exact h.unbegun T hT
  · intro F T hF; rw [ht] at hF; rw [hseg, hs]; exact h.begun F T hF
  · intro T hT; rw [hn] at hT; rw [hseg]; exact h.fresh T hT
  · intro T; rw [hseg]; exact h.range T
  · intro T hT
    rw [hn] at hT
    rw [hseg]
    exact (h.waits T hT).imp_right (hw T)

lemma Board.Waits.put (h : b.Waits T)
    (htasks : ∀ tk ∈ b.tasks, tk.work.ticketIn b.ticket = some T → (b.put l i st).Waits T)
    (hother : ∀ j, j ≠ i → (b.stage j).waiting l.ticket = (b.stage j).waiting b.ticket)
    (hself : (b.stage i).waiting b.ticket = some T → (b.put l i st).Waits T) :
    (b.put l i st).Waits T := by
  rcases h with ⟨tk, htk, hT⟩ | ⟨j, hj⟩
  · exact htasks tk htk hT
  · by_cases hji : j = i
    · exact hself (hji ▸ hj)
    · exact .inr ⟨j, by rw [Board.waiting_put hji]; exact (hother j hji).trans hj⟩

lemma Board.waits_self (h : st.waiting l.ticket = some T) : (b.put l i st).Waits T :=
  .inr ⟨i, by simpa [Board.put] using h⟩

/-! ### Scheduling -/

/-- Whether `T` is among the `k` tickets from `T₀` on. -/
def among (T₀ k T : ℕ) : ℕ := if T₀ ≤ T ∧ T < T₀ + k then 1 else 0

lemma among_of_mem {T₀ k : ℕ} (h : T₀ ≤ T) (h' : T < T₀ + k) : among T₀ k T = 1 := if_pos ⟨h, h'⟩

lemma among_of_not_mem {T₀ k : ℕ} (h : T < T₀ ∨ T₀ + k ≤ T) : among T₀ k T = 0 :=
  if_neg (by omega)

lemma among_succ (T₀ k : ℕ) : one T T₀ + among (T₀ + 1) k T = among T₀ (k + 1) T := by
  unfold one among
  split <;> split <;> split <;> omega

lemma sum_issued (T₀ : ℕ) (ws : List (Target ℕ (Func κ N))) :
    ((issue T₀ ws).map (Work.issued T)).sum = among T₀ (funcs ws) T := by
  induction ws generalizing T₀ with
  | nil => exact (among_of_not_mem (by simp only [funcs]; omega)).symm
  | cons w ws ih =>
      cases w with
      | fiber f => simp [issue, funcs, Work.issued, ih]
      | func g =>
          simp only [issue, funcs, Work.issued, List.map_cons, List.sum_cons, ih]
          exact among_succ T₀ _

lemma mem_issue {T₀ : ℕ} (ws : List (Target ℕ (Func κ N))) (h : T₀ ≤ T)
    (h' : T < T₀ + funcs ws) : ∃ g, Work.func g T ∈ issue T₀ ws := by
  induction ws generalizing T₀ with
  | nil =>
      simp only [funcs] at h'
      omega
  | cons w ws ih =>
      cases w with
      | fiber f =>
          obtain ⟨g, hg⟩ := ih h h'
          exact ⟨g, List.mem_cons_of_mem _ hg⟩
      | func g =>
          by_cases hT : T = T₀
          · exact ⟨g, by rw [hT]; exact List.mem_cons_self⟩
          · have hlt : T < T₀ + 1 + funcs ws := by
              simp only [funcs] at h'
              omega
            obtain ⟨g', hg'⟩ := ih (Nat.lt_of_le_of_ne h (Ne.symm hT)) hlt
            exact ⟨g', List.mem_cons_of_mem _ hg'⟩

lemma Board.issued_schedule (ws : List (Target ℕ (Func κ N))) (thr : ℤ) :
    Board.issued { b with toLedger := b.toLedger.schedule ws thr } T =
      b.issued T + among b.nextTicket (funcs ws) T := by
  have hnew : (((issue b.nextTicket ws).map fun w => (⟨w, thr⟩ : Job κ N)).map
      fun tk => tk.work.issued T).sum = among b.nextTicket (funcs ws) T := by
    rw [List.map_map]
    exact sum_issued _ _
  simp only [Board.issued, Ledger.schedule, List.map_append, List.sum_append, hnew]
  omega

lemma Orderly.schedule (h : Orderly b) (ws : List (Target ℕ (Func κ N))) (thr : ℤ) :
    Orderly { b with toLedger := b.toLedger.schedule ws thr } := by
  have hi := fun T => b.issued_schedule (T := T) ws thr
  have hold : ∀ T, b.nextTicket ≤ T → b.issued T = 0 := by
    intro T hT
    by_contra hpos
    have := (h.unbegun T (by omega)).1
    omega
  refine ⟨fun F T hT => ?_, h.single, fun T => ?_, fun T hT => ?_, h.begun, fun T hT => ?_, h.range,
    fun T hT => ?_⟩
  · exact (h.loaded F T hT).trans_le (Nat.le_add_right _ _)
  · rw [hi]
    have := h.once T
    by_cases hnew : b.nextTicket ≤ T ∧ T < b.nextTicket + funcs ws
    · rw [hold T hnew.1, among_of_mem hnew.1 hnew.2]
    · rw [among_of_not_mem (by omega)]
      omega
  · rw [hi] at hT
    by_cases hnew : b.nextTicket ≤ T ∧ T < b.nextTicket + funcs ws
    · refine ⟨hnew.2, h.fresh T hnew.1, fun F hF => ?_⟩
      have := h.loaded F T hF
      omega
    · rw [among_of_not_mem (by omega)] at hT
      obtain ⟨hlt, hrest⟩ := h.unbegun T (by omega)
      exact ⟨hlt.trans_le (Nat.le_add_right _ _), hrest⟩
  · exact h.fresh T ((Nat.le_add_right _ _).trans hT)
  · by_cases hlt : T < b.nextTicket
    · refine (h.waits T hlt).imp_right ?_
      rintro (⟨tk, htk, hT⟩ | hw)
      · exact .inl ⟨tk, List.mem_append_left _ htk, hT⟩
      · exact .inr hw
    · obtain ⟨g, hg⟩ := mem_issue ws (Nat.le_of_not_lt hlt) hT
      exact .inr (.inl ⟨⟨.func g T, thr⟩, List.mem_append_right _ (List.mem_map_of_mem hg), rfl⟩)

/-! ### Making and loading a fiber -/

lemma ticket_update {ticket : ℕ → Option ℕ} {T' : ℕ}
    (h : Function.update ticket f (some T) F = some T') :
    F = f ∧ T' = T ∨ F ≠ f ∧ ticket F = some T' := by
  by_cases hF : F = f
  · subst hF
    rw [Function.update_self] at h
    exact .inl ⟨rfl, (Option.some.inj h).symm⟩
  · rw [Function.update_of_ne hF] at h
    exact .inr ⟨hF, h⟩

lemma Board.issued_spawn (f : ℕ) (thr : ℤ) :
    Board.issued { b with toLedger := b.toLedger.spawn f thr } T = b.issued T := by
  simp [Board.issued, Ledger.spawn, Work.issued]

lemma Orderly.spawn (h : Orderly b) (hf : b.Absent f) (thr : ℤ) :
    Orderly { b with toLedger := b.toLedger.spawn f thr } := by
  have hi := fun T => b.issued_spawn (T := T) f thr
  refine ⟨fun F T hT => ?_, fun F F' T hT hT' => ?_, fun T => ?_, fun T hT => ?_, fun F T hT => ?_,
    fun T hT => ?_, h.range, fun T hT => ?_⟩
  · rcases ticket_update hT with ⟨-, rfl⟩ | ⟨-, hT⟩
    · exact Nat.lt_succ_self _
    · exact (h.loaded F T hT).trans (Nat.lt_succ_self _)
  · rcases ticket_update hT with ⟨hF, hnew⟩ | ⟨-, hold⟩ <;>
      rcases ticket_update hT' with ⟨hF', hnew'⟩ | ⟨-, hold'⟩
    · rw [hF, hF']
    · exact absurd (hnew ▸ h.loaded F' T hold') (Nat.lt_irrefl _)
    · exact absurd (hnew' ▸ h.loaded F T hold) (Nat.lt_irrefl _)
    · exact h.single F F' T hold hold'
  · rw [hi]; exact h.once T
  · rw [hi] at hT
    obtain ⟨hlt, hseg, hno⟩ := h.unbegun T hT
    refine ⟨hlt.trans (Nat.lt_succ_self _), hseg, fun F hF => ?_⟩
    rcases ticket_update hF with ⟨-, rfl⟩ | ⟨-, hF⟩
    · exact absurd hlt (Nat.lt_irrefl _)
    · exact hno F hF
  · rcases ticket_update hT with ⟨rfl, rfl⟩ | ⟨hF, hT⟩
    · have hzero : Board.runs { b with toLedger := b.toLedger.spawn F thr } F = 0 := hf.runs
      have hseg : (b.toLedger.spawn F thr).seg F = 0 := Function.update_self _ _ _
      rw [hzero, hseg]
      exact h.fresh b.nextTicket le_rfl
    · have hseg : (b.toLedger.spawn f thr).seg F = b.seg F := Function.update_of_ne hF _ _
      rw [hseg]
      exact h.begun F T hT
  · exact h.fresh T ((Nat.le_succ _).trans hT)
  · rcases Nat.lt_succ_iff_lt_or_eq.1 hT with hlt | rfl
    · refine (h.waits T hlt).imp_right ?_
      rintro (⟨tk, htk, hT⟩ | ⟨j, hj⟩)
      · refine .inl ⟨tk, List.mem_append_left _ htk, ?_⟩
        exact (Work.ticketIn_update (hf.1 tk htk)).trans hT
      · exact .inr ⟨j, (Stage.waiting_update (hf.2 j)).trans hj⟩
    · refine .inr (.inl ⟨⟨.fiber f, thr⟩, List.mem_append_right _ List.mem_cons_self, ?_⟩)
      exact Function.update_self _ _ _

lemma Board.issued_load {g : Func κ N} (hi : b.stage i = .hand (.func g T)) (f T' : ℕ) :
    (b.put (b.toLedger.load f (some T)) i (.loaded f)).issued T' + one T' T = b.issued T' := by
  have hsum := b.issued_put (b.toLedger.load f (some T)) i (.loaded f) T'
  have htasks : (b.toLedger.load f (some T)).tasks = b.tasks := rfl
  rw [hi, htasks] at hsum
  simp only [Stage.issued, Work.issued] at hsum
  omega

lemma Orderly.load (h : Orderly b) {g : Func κ N} (hi : b.stage i = .hand (.func g T))
    (hf : b.Absent f) : Orderly (b.put (b.toLedger.load f (some T)) i (.loaded f)) := by
  have hput := b.issued_load hi f
  have hone := hput T
  rw [one_self] at hone
  obtain ⟨hlt, hseg, hno⟩ := h.unbegun T (by omega)
  refine ⟨fun F T' hT => ?_, fun F F' T' hT hT' => ?_, fun T' => ?_, fun T' hT => ?_,
    fun F T' hT => ?_, h.fresh, h.range, fun T' hT => ?_⟩
  · rcases ticket_update hT with ⟨-, rfl⟩ | ⟨-, hT⟩
    · exact hlt
    · exact h.loaded F T' hT
  · rcases ticket_update hT with ⟨hF, hnew⟩ | ⟨-, hold⟩ <;>
      rcases ticket_update hT' with ⟨hF', hnew'⟩ | ⟨-, hold'⟩
    · rw [hF, hF']
    · exact absurd (hnew ▸ hold') (hno F')
    · exact absurd (hnew' ▸ hold) (hno F)
    · exact h.single F F' T' hold hold'
  · have := hput T'
    have := h.once T'
    omega
  · have hpos := hput T'
    have hne : T' ≠ T := by
      rintro rfl
      have := h.once T'
      omega
    obtain ⟨hlt', hseg', hno'⟩ := h.unbegun T' (by omega)
    refine ⟨hlt', hseg', fun F hF => ?_⟩
    rcases ticket_update hF with ⟨-, hT'⟩ | ⟨-, hF⟩
    · exact hne hT'
    · exact hno' F hF
  · have hruns := b.runs_put (b.toLedger.load f (some T)) i (.loaded f) F
    rw [hi] at hruns
    simp only [Stage.runs, Nat.add_zero] at hruns
    rw [hruns]
    rcases ticket_update hT with ⟨rfl, rfl⟩ | ⟨hF, hT⟩
    · have hzero : (b.toLedger.load F (some T')).seg F = 0 := Function.update_self _ _ _
      rw [Board.put_toLedger, hzero, hf.runs]
      exact hseg
    · have hsame : (b.toLedger.load f (some T)).seg F = b.seg F := Function.update_of_ne hF _ _
      rw [Board.put_toLedger, hsame]
      exact h.begun F T' hT
  · refine (h.waits T' hT).imp_right fun hw => hw.put (fun tk htk hT => ?_) (fun j _ => ?_) fun hT => ?_
    · exact .inl ⟨tk, htk, (Work.ticketIn_update (hf.1 tk htk)).trans hT⟩
    · exact Stage.waiting_update (hf.2 j)
    · rw [hi] at hT
      exact Board.waits_self ((Function.update_self _ _ _).trans hT)

/-! ### Segments -/

lemma Ledger.segments_start (T : ℕ) :
    (l.start i f).segments T = l.segments T ++ if l.ticket f = some T then [l.seg f] else [] := by
  unfold Ledger.segments Ledger.start
  cases ht : l.ticket f with
  | none => simp
  | some T' =>
      by_cases hT : T' = T
      · simp [hT]
      · simp [hT]

lemma Orderly.start (h : Orderly b) (hi : b.stage i = .loaded f) (hf : b.Alone i f) :
    Orderly (b.put (b.toLedger.start i f) i (.running f)) := by
  have hissued : ∀ T, (b.put (b.toLedger.start i f) i (.running f)).issued T = b.issued T :=
    fun T => Board.issued_put_eq rfl (by rw [hi]; rfl)
  have hzero : b.runs f = 0 := by rw [hf.runs, hi]; rfl
  have hother : ∀ T, b.ticket f ≠ some T → (b.toLedger.start i f).segments T = b.segments T := by
    intro T hT
    rw [Ledger.segments_start, if_neg hT, List.append_nil]
  have hself : ∀ T, b.ticket f = some T →
      (b.toLedger.start i f).segments T = List.range (b.seg f + 1) := by
    intro T hT
    rw [Ledger.segments_start, if_pos hT, h.begun f T hT, hzero, Nat.add_zero, List.range_succ]
  refine ⟨h.loaded, h.single, fun T => ?_, fun T hT => ?_, fun F T hT => ?_, fun T hT => ?_,
    fun T => ?_, fun T hT => ?_⟩
  · rw [hissued]; exact h.once T
  · rw [hissued] at hT
    obtain ⟨hlt, hseg, hno⟩ := h.unbegun T hT
    exact ⟨hlt, (hother T (hno f)).trans hseg, hno⟩
  · have hruns := b.runs_put (b.toLedger.start i f) i (.running f) F
    rw [hi] at hruns
    simp only [Stage.runs] at hruns
    by_cases hF : F = f
    · subst hF
      rw [one_self] at hruns
      rw [Board.put_toLedger, hself T hT, show (b.put _ i _).runs F = 1 by omega]
      rfl
    · have hne : b.ticket f ≠ some T := fun hf' => hF (h.single F f T hT hf')
      rw [one_of_ne (Ne.symm hF)] at hruns
      rw [Nat.add_zero, Nat.add_zero] at hruns
      rw [Board.put_toLedger, hother T hne, hruns]
      exact h.begun F T hT
  · have hne : b.ticket f ≠ some T := fun hf' => by
      have hlt := h.loaded f T hf'
      exact absurd hlt (Nat.not_lt.2 hT)
    exact (hother T hne).trans (h.fresh T hT)
  · rw [Board.put_toLedger]
    by_cases hT : b.ticket f = some T
    · rw [hself T hT, List.length_range]
    · rw [hother T hT]
      exact h.range T
  · rw [Board.put_toLedger]
    by_cases hf' : b.ticket f = some T
    · left
      rw [hself T hf', List.range_succ]
      simp
    · rw [hother T hf']
      refine (h.waits T hT).imp_right fun hw =>
        hw.put (fun tk htk hT => ?_) (fun j _ => rfl) fun hT => ?_
      · exact .inl ⟨tk, htk, hT⟩
      · rw [hi] at hT
        exact absurd hT hf'

lemma Orderly.leave (h : Orderly b) (hi : b.stage i = .running f) (hf : b.Alone i f) :
    Orderly (b.put (b.toLedger.leave f) i (.left f)) := by
  refine h.of_same rfl rfl (fun F => ?_) rfl (fun T => ?_) fun T hw => ?_
  · have hruns := b.runs_put (b.toLedger.leave f) i (.left f) F
    rw [hi] at hruns
    simp only [Stage.runs] at hruns
    by_cases hF : F = f
    · subst hF
      have hseg : (b.toLedger.leave F).seg F = b.seg F + 1 := Function.update_self _ _ _
      rw [one_self] at hruns
      rw [Board.put_toLedger, hseg]
      omega
    · have hseg : (b.toLedger.leave f).seg F = b.seg F := Function.update_of_ne hF _ _
      rw [one_of_ne (Ne.symm hF)] at hruns
      rw [Board.put_toLedger, hseg]
      omega
  · exact Board.issued_put_eq rfl (by rw [hi]; rfl)
  · refine hw.put (fun tk htk hT => .inl ⟨tk, htk, hT⟩) (fun j _ => rfl) fun hT => ?_
    rw [hi] at hT
    cases hT

lemma Orderly.retire (h : Orderly b) (hi : b.stage i = .left f) (hf : b.Alone i f) :
    Orderly (b.put (b.toLedger.load f none) i .idle) := by
  have hticket : ∀ F T, Function.update b.ticket f none F = some T → F ≠ f ∧ b.ticket F = some T := by
    intro F T hT
    by_cases hF : F = f
    · subst hF
      rw [Function.update_self] at hT
      cases hT
    · exact ⟨hF, by rwa [Function.update_of_ne hF] at hT⟩
  have hissued : ∀ T, (b.put (b.toLedger.load f none) i .idle).issued T = b.issued T :=
    fun T => Board.issued_put_eq rfl (by rw [hi]; rfl)
  refine ⟨fun F T hT => h.loaded F T (hticket F T hT).2,
    fun F F' T hT hT' => h.single F F' T (hticket F T hT).2 (hticket F' T hT').2, fun T => ?_,
    fun T hT => ?_, fun F T hT => ?_, h.fresh, h.range, fun T hT => ?_⟩
  · rw [hissued]; exact h.once T
  · rw [hissued] at hT
    obtain ⟨hlt, hseg, hno⟩ := h.unbegun T hT
    exact ⟨hlt, hseg, fun F hF => hno F (hticket F T hF).2⟩
  · obtain ⟨hF, hT⟩ := hticket F T hT
    have hruns := b.runs_put (b.toLedger.load f none) i .idle F
    have hseg : (b.toLedger.load f none).seg F = b.seg F := Function.update_of_ne hF _ _
    rw [hi] at hruns
    simp only [Stage.runs, Nat.add_zero] at hruns
    rw [hruns, Board.put_toLedger, hseg]
    exact h.begun F T hT
  · refine (h.waits T hT).imp_right fun hw => hw.put (fun tk htk hT => ?_) (fun j hj => ?_) fun hT => ?_
    · exact .inl ⟨tk, htk, (Work.ticketIn_update (hf.1 tk htk)).trans hT⟩
    · exact Stage.waiting_update (hf.2 j hj)
    · rw [hi] at hT
      cases hT

/-! ### All moves -/

lemma Orderly.put_same (h : Orderly b) (tasks : List (Job κ N))
    (hr : ∀ F, st.runs F = (b.stage i).runs F)
    (hi : ∀ T, (tasks.map fun tk => tk.work.issued T).sum + st.issued T =
      (b.tasks.map fun tk => tk.work.issued T).sum + (b.stage i).issued T)
    (hw : ∀ T, b.Waits T → (b.put (b.toLedger.withTasks tasks) i st).Waits T) :
    Orderly (b.put (b.toLedger.withTasks tasks) i st) := by
  refine h.of_same rfl rfl (fun F => ?_) rfl (fun T => ?_) hw
  · have hruns := b.runs_put (b.toLedger.withTasks tasks) i st F
    have hseg : (b.put (b.toLedger.withTasks tasks) i st).seg = b.seg := rfl
    have := hr F
    rw [hseg]
    omega
  · have hsum := b.issued_put (b.toLedger.withTasks tasks) i st T
    have htasks : (b.toLedger.withTasks tasks).tasks = tasks := rfl
    have := hi T
    rw [htasks] at hsum
    omega

lemma Orderly.drop (h : Orderly b) (hi : b.stage i = .left f) :
    Orderly (b.put b.toLedger i .idle) := by
  refine h.put_same b.tasks (fun F => by rw [hi]; rfl) (fun T => by rw [hi]; rfl)
    fun T hw => hw.put (fun tk htk hT => .inl ⟨tk, htk, hT⟩) (fun j _ => rfl) fun hT => ?_
  rw [hi] at hT
  cases hT

theorem Orderly.move {q : ℕ → Prop} (h : Orderly b) (hm : Move q b b') : Orderly b' := by
  cases hm with
  | still => exact h
  | schedule => exact h.schedule _ _
  | spawn hf => exact h.spawn hf _
  | load hi hf => exact h.load hi hf
  | start hi hf => exact h.start hi hf
  | leave hi hf => exact h.leave hi hf
  | retire hi hf => exact h.retire hi hf
  | suspend | finish =>
      exact h.of_same rfl rfl (fun _ => rfl) rfl (fun _ => rfl) fun _ hw => hw
  | @take i tk pre post hi htasks hel =>
      refine h.put_same (pre ++ post) (fun F => by rw [hi]; rfl) (fun T => ?_) fun T hw =>
        hw.put (fun tk' htk hT => ?_) (fun j _ => rfl) fun hT => ?_
      · rw [hi, htasks]
        simp only [Stage.issued, List.map_append, List.map_cons, List.sum_append, List.sum_cons]
        omega
      · rw [htasks] at htk
        rcases List.mem_append.1 htk with htk | htk
        · exact .inl ⟨tk', List.mem_append_left _ htk, hT⟩
        · rcases List.mem_cons.1 htk with rfl | htk
          · exact Board.waits_self hT
          · exact .inl ⟨tk', List.mem_append_right _ htk, hT⟩
      · rw [hi] at hT
        cases hT
  | @resume i f hi =>
      refine h.put_same b.tasks (fun F => by rw [hi]; rfl) (fun T => by rw [hi]; rfl)
        fun T hw => hw.put (fun tk htk hT => .inl ⟨tk, htk, hT⟩) (fun j _ => rfl) fun hT => ?_
      rw [hi] at hT
      exact Board.waits_self hT
  | drop hi => exact h.drop hi
  | requeue hi => exact (h.drop hi).schedule _ _

end Moves

/-! ### The machine -/

/-- The fiber that the next step of a worker resets: the one of `func_fiber->reset(nullptr)`, or
the one that is kept and gets the next function. -/
def Worker.resets (w : Worker κ N) : Option ℕ :=
  match w.pc with
  | .retire f => some f
  | .dispatch (some ⟨.func _ _, _⟩) => w.funcFiber
  | _ => none

/-- The fiber that a worker is about to swap in. -/
def Pc.calls : Pc κ N → Option ℕ
  | .call _ f | .swapIn _ f => some f
  | _ => none

section Machine

variable {S : Setup κ n N} {x : Sys κ n N} {i : Fin n} {f : ℕ}

lemma Worker.holds_of_resets {w : Worker κ N} (h : w.resets = some f) : 0 < w.holds f := by
  obtain ⟨pc, ff, d⟩ := w
  unfold resets at h
  split at h
  · cases h
    rename_i hpc
    cases hpc
    simp [Worker.holds_mk, Pc.runs]
  · rename_i hpc
    cases hpc
    cases h
    simp [Worker.holds_mk]
  · cases h

lemma Linked.ctx_of_calls {fibers : ℕ → Fiber κ N} {pc : Pc κ N} (hl : Linked fibers pc)
    (h : pc.calls = some f) : (fibers f).ctx ≠ .entry none := by
  have hsaved : ∀ {c : Ctx κ N}, c.Saved → c ≠ .entry none := by
    rintro c (⟨k, rfl⟩ | ⟨r, rfl⟩) <;> nofun
  unfold Pc.calls at h
  split at h
  · rename_i b f'
    cases h
    cases b with
    | fiber => exact hsaved hl.ctx
    | func g T =>
        have hfb : fibers f = { ctx := .entry (some g), ticket := some T } := hl
        rw [hfb]
        nofun
  · rename_i b f'
    cases h
    cases b with
    | fiber => exact hsaved hl.2
    | func g T =>
        have hfb : fibers f = { state := .running, ctx := .entry (some g), ticket := some T } := hl
        rw [hfb]
        nofun
  · cases h

lemma Orderly.init : Orderly ({} : Sys κ n N).board := by
  have hi : ∀ T, ({} : Sys κ n N).board.issued T = 0 := fun T => by
    simp [Board.issued, Sys.board, Shared.ledger, Pc.stage, Stage.issued]
  refine ⟨fun F T h => (by cases h), fun F F' T h => (by cases h), fun T => (hi T).trans_le (by omega),
    fun T h => ?_, fun F T h => (by cases h), fun T _ => rfl, fun T => rfl, fun T h => (by cases h)⟩
  rw [hi] at h
  omega

theorem Orderly.of_reach (h : Reach (Sys.step S) (WakesUnheld S) {} x) : Orderly x.board :=
  reach_board (q := fun _ _ => True) (fun _ _ hg => hg) (fun _ _ _ _ _ _ _ => trivial) Orderly.init
    (fun _ _ hb hm => hb.move hm) h

/-- **Started once.** In every run whose wake-ups meet fibers that no worker has, each ticket waits
to be started or has been started, its segments are begun one after the other, a fiber that is reset
is with no other worker and not in the task list, no fiber is in the task list twice, and none is
called without a function. -/
theorem started_once (h : Reach (Sys.step S) (WakesUnheld S) {} x) :
    (∀ T < x.shared.nextTicket,
      x.board.segments T = [] ∧ x.board.Waits T ∨ 0 ∈ x.board.segments T) ∧
    (∀ T, x.board.segments T = List.range (x.board.segments T).length) ∧
    (∀ i f, (x.workers i).resets = some f →
      x.shared.queued f = 0 ∧ ∀ j, j ≠ i → (x.workers j).holds f = 0) ∧
    (∀ f, x.shared.queued f ≤ 1) ∧
    ∀ i f, (x.workers i).pc.calls = some f → (x.shared.fibers f).ctx ≠ .entry none := by
  have hx := Owned.of_reach h
  have hb := Orderly.of_reach h
  refine ⟨fun T hT => ?_, hb.range, fun i f hi => ?_, fun f => ?_, fun i f hi => ?_⟩
  · by_cases hnil : x.board.segments T = []
    · exact .inl ⟨hnil, (hb.waits T hT).resolve_left (fun hne => hne hnil)⟩
    · right
      rw [hb.range T, List.mem_range]
      exact List.length_pos_iff.2 hnil
  · have hpos := Worker.holds_of_resets hi
    have := x.worker_holds_le f i
    have := hx.holds f
    exact ⟨by omega, fun j hj => (hx.other (Ne.symm hj) hpos).1⟩
  · exact (Nat.le_add_right _ _).trans (hx.holds f)
  · exact (hx.linked i).ctx_of_calls hi

end Machine

theorem started_once_sleeping :
    ∃ x : Sys ℕ 2 1, x.board.segments 0 = [0, 1] ∧
      (∀ T < x.shared.nextTicket,
        x.board.segments T = [] ∧ x.board.Waits T ∨ 0 ∈ x.board.segments T) ∧
      (∀ T, x.board.segments T = List.range (x.board.segments T).length) ∧
      ∀ f, x.shared.queued f ≤ 1 := by
  have h : (run (Sys.step sleeping) (fun x a => decide (WakesUnheld sleeping x a)) {}
      (wakeAfter 13 20)).any (fun x => x.board.segments 0 == [0, 1]) = true := by decide +kernel
  obtain ⟨x, hr, hx⟩ := exists_reach_of_run (fun _ _ => of_decide_eq_true) h
  obtain ⟨hstart, hrange, -, hqueued, -⟩ := started_once hr
  exact ⟨x, by simpa using hx, hstart, hrange, hqueued⟩

/-! ### A wake-up before the last look -/

/-- `F` as a fiber that a worker has called and that has not swapped out. -/
def Pc.inside (F : ℕ) : Pc κ N → ℕ
  | .call _ f | .swapIn _ f | .exec _ f _ => one F f
  | _ => 0

/-- Wake-ups meet fibers that have completely swapped out. -/
def WakesAsleep (S : Setup κ n N) (x : Sys κ n N) : Act κ n N → Prop
  | .worker i _ => ∀ F ∈ (x.workers i).pc.woken S x.shared, ∀ j, (x.workers j).pc.inside F = 0
  | _ => True

instance (S : Setup κ n N) (x : Sys κ n N) (a : Act κ n N) : Decidable (WakesAsleep S x a) :=
  match a with
  | .worker i _ => inferInstanceAs
      (Decidable (∀ F ∈ (x.workers i).pc.woken S x.shared, ∀ j, (x.workers j).pc.inside F = 0))
  | .schedule _ _ | .spawn _ _ | .addTimer _ _ _ | .external _ | .stop | .stopTickle | .join
  | .clock _ => inferInstanceAs (Decidable True)

/-- A task that sleeps for no time, lets others run, and ends. -/
def yielding : Setup ℕ 2 1 :=
  .ofProg (fun k => if k = 0 then .sleep 0 1 else if k = 1 then .yieldReady 2 else .ret)
    Nat.two_pos small_two

/-- **The look at a fiber that is somewhere else.** The fiber of a task is woken when it has swapped
out, but the worker that ran it has not looked at it again. If it is left `READY` by the other
worker, both put it into the task list; if it has ended, the first worker resets it while the other
still has it. -/
theorem looked_at_after_wake :
    (∃ x, Reach (Sys.step yielding) (WakesAsleep yielding) {} x ∧ x.shared.queued 0 = 2) ∧
      ∃ x, Reach (Sys.step sleeping) (WakesAsleep sleeping) {} x ∧
        (x.workers 0).resets = some 0 ∧ 0 < (x.workers 1).holds 0 := by
  have htwice : (run (Sys.step yielding) (fun x a => decide (WakesAsleep yielding x a)) {}
      (wakeAfter 10 23 ++ steps 0 3)).any (fun x => x.shared.queued 0 == 2) = true := by
    decide +kernel
  have hreset : (run (Sys.step sleeping) (fun x a => decide (WakesAsleep sleeping x a)) {}
      (wakeAfter 12 20 ++ steps 0 1)).any (fun x =>
        (x.workers 0).resets == some 0 && decide (0 < (x.workers 1).holds 0)) = true := by
    decide +kernel
  obtain ⟨x, hx, hq⟩ := exists_reach_of_run (fun _ _ => of_decide_eq_true) htwice
  obtain ⟨y, hy, hr⟩ := exists_reach_of_run (fun _ _ => of_decide_eq_true) hreset
  rw [Bool.and_eq_true] at hr
  exact ⟨⟨x, hx, by simpa using hq⟩, y, hy, by simpa using hr.1, of_decide_eq_true hr.2⟩

end Eva01.Runtime
