import Eva01.Runtime.Once

/-!
A task that was scheduled for a thread runs there, as long as it is not put back into the task list
by `run` (`pinned_stays`).

The thread of a task is only known while the task is in the list for the first time. When its fiber
is left `READY`, `run` schedules the fiber again for any thread. Until then, and as long as the task
does not suspend itself, every place of its ticket on the board belongs to its thread (`Pinned`).
-/

namespace Eva01.Runtime

open Eva01.IOManager (Target)
open Eva01.Lib.Runs

variable {κ : Type*} {n N : ℕ}

/-- The ticket a worker has. -/
def Stage.ticketIn (ticket : ℕ → Option ℕ) : Stage κ N → Option ℕ
  | .idle => none
  | .hand w => w.ticketIn ticket
  | .loaded f | .running f | .left f => ticket f

/-- The ticket `T`, which is for the worker `t`, is with nobody else. With one worker, a task for any
thread is for that one. -/
structure Pinned (b : Board κ n N) (T : ℕ) (t : Fin n) : Prop where
  tasks : ∀ tk ∈ b.tasks, tk.work.ticketIn b.ticket = some T → tk.threadId = t ∨ n = 1
  stage : ∀ i, (b.stage i).ticketIn b.ticket = some T → i = t
  trace : ∀ k w, (T, k, w) ∈ b.trace → w = t

/-- Every ticket that has not suspended itself is with the worker it is for. -/
def AllPinned (b : Board κ n N) : Prop :=
  ∀ T (t : Fin n), b.pins T = t → T ∉ b.suspended → Pinned b T t

/-- The fiber `f` may be put back for any thread: it was not scheduled for one, or has suspended
itself since. -/
def Board.Unpinned (b : Board κ n N) (f : ℕ) : Prop :=
  n = 1 ∨ ∀ T, b.ticket f = some T → b.pins T = -1 ∨ T ∈ b.suspended

section Moves

variable {b b' : Board κ n N} {i t : Fin n} {f T : ℕ} {l : Ledger κ N} {st : Stage κ N}

lemma Stage.ticketIn_update {st : Stage κ N} {ticket : ℕ → Option ℕ} {o : Option ℕ}
    (h : st.fiber ≠ some f) : st.ticketIn (Function.update ticket f o) = st.ticketIn ticket := by
  cases st with
  | idle => rfl
  | hand w =>
      refine Work.ticketIn_update ?_
      rintro rfl
      exact h rfl
  | loaded f' | running f' | left f' =>
      exact Function.update_of_ne (fun hf => h (by rw [hf]; rfl)) _ _

lemma Pinned.put (h : Pinned b T t)
    (htasks : ∀ tk ∈ l.tasks, tk.work.ticketIn l.ticket = some T → tk.threadId = t ∨ n = 1)
    (hother : ∀ j, j ≠ i → (b.stage j).ticketIn l.ticket = (b.stage j).ticketIn b.ticket)
    (hself : st.ticketIn l.ticket = some T → i = t)
    (htrace : ∀ k w, (T, k, w) ∈ l.trace → w = t) : Pinned (b.put l i st) T t := by
  refine ⟨htasks, fun j hj => ?_, htrace⟩
  by_cases hji : j = i
  · subst hji
    have hst : (b.put l j st).stage j = st := Function.update_self _ _ _
    rw [hst] at hj
    exact hself hj
  · have hst : (b.put l i st).stage j = b.stage j := Function.update_of_ne hji _ _
    rw [hst] at hj
    exact h.stage j ((hother j hji).symm.trans hj)

lemma Pinned.put_same (h : Pinned b T t) (hst : st.ticketIn b.ticket = some T →
    (b.stage i).ticketIn b.ticket = some T) : Pinned (b.put b.toLedger i st) T t :=
  h.put h.tasks (fun _ _ => rfl) (fun hT => h.stage i (hst hT)) h.trace

lemma issue_cases {T₀ : ℕ} {ws : List (Target ℕ (Func κ N))} {w : Work κ N} (h : w ∈ issue T₀ ws) :
    (∃ f, w = .fiber f ∧ .fiber f ∈ ws) ∨
      ∃ g T, w = .func g T ∧ T₀ ≤ T ∧ T < T₀ + funcs ws := by
  induction ws generalizing T₀ with
  | nil => cases h
  | cons x ws ih =>
      cases x with
      | fiber f =>
          rcases List.mem_cons.1 h with rfl | h
          · exact .inl ⟨f, rfl, List.mem_cons_self⟩
          · rcases ih h with ⟨f', hw, hf'⟩ | hfunc
            · exact .inl ⟨f', hw, List.mem_cons_of_mem _ hf'⟩
            · exact .inr hfunc
      | func g =>
          rcases List.mem_cons.1 h with rfl | h
          · exact .inr ⟨g, T₀, rfl, le_rfl, by simp only [funcs]; omega⟩
          · rcases ih h with ⟨f', hw, hf'⟩ | ⟨g', T, hw, hle, hlt⟩
            · exact .inl ⟨f', hw, List.mem_cons_of_mem _ hf'⟩
            · exact .inr ⟨g', T, hw, by omega, by simp only [funcs]; omega⟩

lemma Orderly.ticket_lt (h : Orderly b) {w : Work κ N} (hw : w.ticketIn b.ticket = some T)
    (hin : (∃ tk ∈ b.tasks, tk.work = w) ∨ ∃ i, b.stage i = .hand w) : T < b.nextTicket := by
  cases w with
  | fiber f => exact h.loaded f T hw
  | func g T' =>
      cases hw
      refine (h.unbegun T ?_).1
      have hone : (Work.func g T : Work κ N).issued T = 1 := one_self T
      rcases hin with ⟨tk, htk, hwork⟩ | ⟨i, hi⟩
      · have hmem : tk.work.issued T ∈ b.tasks.map fun tk => tk.work.issued T :=
          List.mem_map_of_mem htk
        have := List.single_le_sum (fun _ _ => Nat.zero_le _) _ hmem
        rw [hwork, hone] at this
        unfold Board.issued
        omega
      · have hle := le_sum (f := fun j => (b.stage j).issued T) i
        have hst : (b.stage i).issued T = 1 := by rw [hi]; exact hone
        unfold Board.issued
        omega

lemma Orderly.stage_lt (h : Orderly b) (hT : (b.stage i).ticketIn b.ticket = some T) :
    T < b.nextTicket := by
  cases hst : b.stage i with
  | idle =>
      rw [hst] at hT
      cases hT
  | hand w =>
      rw [hst] at hT
      exact h.ticket_lt hT (.inr ⟨i, hst⟩)
  | loaded f | running f | left f =>
      rw [hst] at hT
      exact h.loaded f T hT

lemma Orderly.trace_lt (h : Orderly b) {k w : ℕ} (hT : (T, k, w) ∈ b.trace) : T < b.nextTicket := by
  by_contra hge
  have hnil := h.fresh T (Nat.le_of_not_lt hge)
  have hmem : k ∈ b.segments T := List.mem_filterMap.2 ⟨_, hT, by simp⟩
  rw [hnil] at hmem
  cases hmem

lemma Ledger.pin_of_lt {k : ℕ} {thr : ℤ} (h : T < l.nextTicket) : l.pin k thr T = l.pins T :=
  if_neg (by omega)

lemma Ledger.pin_of_mem {k : ℕ} {thr : ℤ} (h : l.nextTicket ≤ T) (h' : T < l.nextTicket + k) :
    l.pin k thr T = thr := if_pos ⟨h, h'⟩

lemma AllPinned.schedule (h : AllPinned b) (hb : Orderly b) {ws : List (Target ℕ (Func κ N))}
    (thr : ℤ) (hf : ∀ f, .fiber f ∈ ws → b.Unpinned f) :
    AllPinned { b with toLedger := b.toLedger.schedule ws thr } := by
  intro T t hp hs
  have hold : T < b.nextTicket → Pinned b T t := fun hlt =>
    h T t ((Ledger.pin_of_lt hlt).symm.trans hp) hs
  refine ⟨fun tk htk hT => ?_, fun i hT => (hold (hb.stage_lt hT)).stage i hT,
    fun k w hT => (hold (hb.trace_lt hT)).trace k w hT⟩
  rcases List.mem_append.1 htk with htk | htk
  · exact (hold (hb.ticket_lt hT (.inl ⟨tk, htk, rfl⟩))).tasks tk htk hT
  · obtain ⟨w, hw, rfl⟩ := List.mem_map.1 htk
    rcases issue_cases hw with ⟨f, rfl, hmem⟩ | ⟨g, T', rfl, hle, hlt⟩
    · rcases hf f hmem with hone | hun
      · exact .inr hone
      · rcases hun T hT with hany | hsus
        · have hpin := (Ledger.pin_of_lt (hb.loaded f T hT)).symm.trans hp
          rw [hany] at hpin
          omega
        · exact absurd hsus hs
    · cases hT
      exact .inl ((Ledger.pin_of_mem hle hlt).symm.trans hp)

lemma AllPinned.spawn (h : AllPinned b) (hb : Orderly b) (hf : b.Absent f) (thr : ℤ) :
    AllPinned { b with toLedger := b.toLedger.spawn f thr } := by
  intro T t hp hs
  have hold : T < b.nextTicket → Pinned b T t := fun hlt =>
    h T t ((Ledger.pin_of_lt hlt).symm.trans hp) hs
  refine ⟨fun tk htk hT => ?_, fun i hT => ?_, fun k w hT => (hold (hb.trace_lt hT)).trace k w hT⟩
  · rcases List.mem_append.1 htk with htk | htk
    · have hT' := (Work.ticketIn_update (hf.1 tk htk)).symm.trans hT
      exact (hold (hb.ticket_lt hT' (.inl ⟨tk, htk, rfl⟩))).tasks tk htk hT'
    · rw [List.mem_singleton.1 htk] at hT ⊢
      have hnew : (b.toLedger.spawn f thr).ticket f = some b.nextTicket := Function.update_self _ _ _
      cases hnew.symm.trans hT
      exact .inl ((Ledger.pin_of_mem le_rfl (Nat.lt_succ_self _)).symm.trans hp)
  · have hT' := (Stage.ticketIn_update (hf.2 i)).symm.trans hT
    exact (hold (hb.stage_lt hT')).stage i hT'

/-- **Moves that put back unpinned fibers only keep every ticket with its worker.** -/
theorem AllPinned.move (h : AllPinned b) (hb : Orderly b) (hm : Move b.Unpinned b b') :
    AllPinned b' := by
  have hdrop : ∀ {i : Fin n} {f : ℕ}, b.stage i = .left f → AllPinned (b.put b.toLedger i .idle) :=
    fun hi T t hp hs => (h T t hp hs).put_same fun hT => (by cases hT)
  cases hm with
  | still => exact h
  | schedule hf => exact h.schedule hb _ fun f hmem => .inr fun T hT => .inr (hf f hmem T hT)
  | spawn hf => exact h.spawn hb hf _
  | finish => exact fun T t hp hs => ⟨(h T t hp hs).tasks, (h T t hp hs).stage, (h T t hp hs).trace⟩
  | suspend =>
      intro T t hp hs
      have hold := h T t hp fun hT => hs (List.mem_append_left _ hT)
      exact ⟨hold.tasks, hold.stage, hold.trace⟩
  | @take i tk pre post hi htasks hel =>
      intro T t hp hs
      have hold := h T t hp hs
      have hmem : ∀ {tk'}, tk' ∈ pre ++ post → tk' ∈ b.tasks := fun htk' => by
        rw [htasks]
        rcases List.mem_append.1 htk' with hpre | hpost
        · exact List.mem_append_left _ hpre
        · exact List.mem_append_right _ (List.mem_cons_of_mem _ hpost)
      refine hold.put (fun tk' htk' hT => hold.tasks tk' (hmem htk') hT) (fun _ _ => rfl)
        (fun hT => ?_) hold.trace
      have htk : tk ∈ b.tasks := htasks ▸ List.mem_append_right _ List.mem_cons_self
      rcases hold.tasks tk htk hT with hthr | rfl
      · rcases Scheduler.eligible_iff.1 hel with hany | hown <;> exact Fin.ext (by omega)
      · exact Subsingleton.elim _ _
  | resume hi => exact fun T t hp hs => (h T t hp hs).put_same fun hT => by rw [hi]; exact hT
  | @load i g T₀ f hi hf hnone =>
      intro T t hp hs
      have hold := h T t hp hs
      refine hold.put (fun tk htk hT => ?_) (fun j _ => Stage.ticketIn_update (hf.2 j)) (fun hT => ?_)
        hold.trace
      · exact hold.tasks tk htk ((Work.ticketIn_update (hf.1 tk htk)).symm.trans hT)
      · have hnew : (b.toLedger.load f (some T₀)).ticket f = some T₀ := Function.update_self _ _ _
        refine hold.stage i ?_
        rw [hi]
        exact hnew.symm.trans hT
  | @start i f hi hf =>
      intro T t hp hs
      have hold := h T t hp hs
      have hself : b.ticket f = some T → i = t := fun hT => hold.stage i (by rw [hi]; exact hT)
      refine hold.put hold.tasks (fun _ _ => rfl) hself fun k w hT => ?_
      rcases List.mem_append.1 hT with hT | hT
      · exact hold.trace k w hT
      · obtain ⟨T', hT', heq⟩ := List.mem_map.1 hT
        cases heq
        rw [← hself (Option.mem_toList.1 hT')]
  | leave hi hf =>
      intro T t hp hs
      have hold := h T t hp hs
      exact hold.put hold.tasks (fun _ _ => rfl) (fun hT => hold.stage _ (by rw [hi]; exact hT))
        hold.trace
  | drop hi => exact hdrop hi
  | @requeue i f hi hq =>
      refine (hdrop hi).schedule (hb.drop hi) (-1) fun f' hf' => ?_
      rw [List.mem_singleton] at hf'
      cases hf'
      exact hq
  | @retire i f hi hf hfin =>
      intro T t hp hs
      have hold := h T t hp hs
      refine hold.put (fun tk htk hT => ?_) (fun j hj => Stage.ticketIn_update (hf.2 j hj))
        (fun hT => (by cases hT)) hold.trace
      exact hold.tasks tk htk ((Work.ticketIn_update (hf.1 tk htk)).symm.trans hT)

end Moves

/-! ### The machine -/

/-- The fiber that the next step of a worker puts back into the task list. -/
def Pc.putsBack : Pc κ N → Option ℕ
  | .requeue _ f => some f
  | _ => none

/-- **Pinned fibers are not put back**: `run` schedules a fiber that was left `READY` only if its
task was not scheduled for a thread, or has suspended itself before, or if there is one worker. -/
def PutsBackUnpinned (x : Sys κ n N) : Act κ n N → Prop
  | .worker i _ => ∀ f ∈ (x.workers i).pc.putsBack, n = 1 ∨
      ∀ T ∈ (x.shared.fibers f).ticket, x.shared.pins T = -1 ∨ T ∈ x.shared.suspended
  | _ => True

instance (x : Sys κ n N) (a : Act κ n N) : Decidable (PutsBackUnpinned x a) :=
  match a with
  | .worker i _ => inferInstanceAs (Decidable (∀ f ∈ (x.workers i).pc.putsBack, n = 1 ∨
      ∀ T ∈ (x.shared.fibers f).ticket, x.shared.pins T = -1 ∨ T ∈ x.shared.suspended))
  | .schedule _ _ | .spawn _ _ | .addTimer _ _ _ | .external _ | .stop | .stopTickle | .join
  | .clock _ => inferInstanceAs (Decidable True)

section Machine

variable {S : Setup κ n N} {x : Sys κ n N}

/-- **Thread affinity.** In every run in which pinned fibers are not put back, and wake-ups meet
fibers that no worker has, a task that was scheduled for the worker `t` and has not suspended itself
has run all its segments there. -/
theorem pinned_stays
    (h : Reach (Sys.step S) (fun x a => WakesUnheld S x a ∧ PutsBackUnpinned x a) {} x)
    {T k w : ℕ} {t : Fin n} (hT : (T, k, w) ∈ x.shared.trace) (hp : x.shared.pins T = t)
    (hs : T ∉ x.shared.suspended) :
    w = t := by
  have hb : Orderly x.board ∧ AllPinned x.board := by
    refine reach_board (P := fun b => Orderly b ∧ AllPinned b) (fun _ _ hg => hg.1)
      (fun x i ch b f hg hpc => ?_) ⟨Orderly.init, fun T t hp _ => ?_⟩
      (fun b b' hb hm => ⟨hb.1.move hm, hb.2.move hb.1 hm⟩) h
    · exact hg.2 f (by rw [hpc]; rfl)
    · have hany : (-1 : ℤ) = t := hp
      omega
  exact (hb.2 T t hp hs).trace k w hT

end Machine

/-- A task that lets others run once, and ends. -/
def polite : ℕ → Op ℕ 1
  | 0 => .yieldReady 1
  | _ => .ret

/-- Two workers, which pass over tasks of the other. -/
def skipping : Setup ℕ 2 1 :=
  { Setup.ofProg polite Nat.two_pos small_two with
    sel := Scheduler.selectSkipping
    selects := Scheduler.selectSkipping_selects }

/-- A task for any thread yields on the worker `0`, is put back and ends on the worker `1`, which has
run the task for it in between. -/
theorem pinned_stays_one :
    ∃ x : Sys ℕ 2 1, (1, 0, 1) ∈ x.shared.trace ∧ (0, 0, 0) ∈ x.shared.trace ∧
      (0, 1, 1) ∈ x.shared.trace ∧ x.shared.finished = [1, 0] ∧
      ∀ k w, (1, k, w) ∈ x.shared.trace → w = 1 := by
  have h : (run (Sys.step skipping)
      (fun x a => decide (WakesUnheld skipping x a ∧ PutsBackUnpinned x a)) {}
      (.schedule [0] (-1) :: .schedule [1] 1 :: steps 0 12 ++ steps 1 20)).any (fun x =>
        decide (x.shared.pins 1 = 1 ∧ x.shared.suspended = [] ∧
          x.shared.trace = [(0, 0, 0), (1, 0, 1), (0, 1, 1)] ∧ x.shared.finished = [1, 0])) = true := by
    decide +kernel
  obtain ⟨x, hr, hx⟩ := exists_reach_of_run (fun _ _ => of_decide_eq_true) h
  obtain ⟨hp, hs, htrace, hfin⟩ := of_decide_eq_true hx
  exact ⟨x, by simp [htrace], by simp [htrace], by simp [htrace], hfin,
    fun k w hT => pinned_stays (t := 1) hr hT hp (by simp [hs])⟩

/-- **The fiber goes to any thread.** A task for the worker `1` yields once, and its second segment
runs on the worker `0`. -/
theorem yield_loses_thread :
    ∃ x, Reach (Sys.step skipping) (WakesUnheld skipping) {} x ∧ x.shared.pins 0 = 1 ∧
      x.shared.suspended = [] ∧ (0, 1, 0) ∈ x.shared.trace := by
  have h : (run (Sys.step skipping) (fun x a => decide (WakesUnheld skipping x a)) {}
      (.schedule [0] 1 :: steps 1 11 ++ steps 0 5)).any (fun x =>
        decide (x.shared.pins 0 = 1 ∧ x.shared.suspended = [] ∧ (0, 1, 0) ∈ x.shared.trace)) = true := by
    decide +kernel
  obtain ⟨x, hr, hx⟩ := exists_reach_of_run (fun _ _ => of_decide_eq_true) h
  exact ⟨x, hr, of_decide_eq_true hx⟩

end Eva01.Runtime
