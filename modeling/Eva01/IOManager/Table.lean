import Eva01.IOManager.FdContext
import Eva01.Lib.Runs
import Eva01.Lib.Vec

/-!
The table `m_fd_contexts`, which grows while other threads use it (`contexts_stay`).

`addEvent` tests the size in one section and resizes in another, to half as much again as its own
descriptor. If the table has meanwhile been made larger than that for another descriptor, it is cut
down: contexts that have been handed out are lost, and a thread that has passed the size test may
find its index out of range (`cut_down`). The table is as it should be in every run in which each
`resizeContexts` finds a table that is not larger than what it asks for; and for sizes above `2 ^
31` the cast of an index to `int` does not give the index.

The contexts are objects, numbered in the order in which they are made, and the table holds pointers
to them. `FdContext::events` has no initialiser: a new context has what its memory holds. A call is
at the section it comes to next; the clock, the kernel and the fibers come in only through the
results they give a section.

Types: `φ` for the fibers, `γ` for the functions a slot may hold.
-/

namespace Eva01.IOManager

open Eva01.Lib Eva01.Lib.Runs

variable {φ γ : Type*}

/-! ### The table -/

/-- An `FdContext`, with its field `fd`. -/
structure Object (φ γ : Type*) where
  fd : ℤ
  ctx : FdContext φ γ

/-- `new FdContext`, with its field `fd` set; its memory holds `mask` for `events`. -/
def Object.new (fd : ℤ) (mask : Events) : Object φ γ where
  fd := fd
  ctx := { events := mask }

/-- A non-negative `int`. -/
abbrev Descriptor := Fin (2 ^ 31)

/-- What is asked of the context of a descriptor; `self` is the calling fiber. -/
inductive Request (φ γ : Type*)
  | addEvent (e : Event) (func : Option γ) (self : φ)
  | delEvent (e : Event)
  | cancelEvent (e : Event)
  | cancelAll

/-- The section a call comes to next. -/
inductive Phase
  /-- `addEvent`, with `need_resize`: the section that resizes the table and reads it. -/
  | grow
  /-- `addEvent`, without: the section that reads the table. -/
  | look
  /-- `addEvent`: the test made without a lock, on the context at `p`. -/
  | test (p : ℕ)
  /-- The section under `fd_ctx->mtx`. -/
  | locked (p : ℕ)
  deriving DecidableEq, Repr

structure TableCall (φ γ : Type*) where
  fd : Descriptor
  req : Request φ γ
  phase : Phase

/-- What ends the process. -/
inductive Stop
  | assertion (a : Assertion)
  /-- `m_fd_contexts[fd]` behind the end of the table -/
  | outOfRange
  /-- a null pointer is used -/
  | null
  deriving DecidableEq, Repr

structure Contexts (φ γ : Type*) where
  /-- What the memory of the next contexts holds for `events`, by their numbers. -/
  unset : ℕ → Events
  /-- The contexts made so far. -/
  heap : List (Object φ γ) := []
  /-- `m_fd_contexts` -/
  table : List (Option ℕ) := []
  /-- `m_pending_count` -/
  pending : ℕ := 0
  calls : List (TableCall φ γ) := []
  stopped : Option Stop := none

/-- The loop of `resizeContexts` from the index `i` on: null pointers get a new context. -/
def fill (unset : ℕ → Events) :
    ℕ → List (Option ℕ) → List (Object φ γ) → List (Option ℕ) × List (Object φ γ)
  | _, [], heap => ([], heap)
  | i, some p :: ps, heap =>
      let (ps', heap') := fill unset (i + 1) ps heap
      (some p :: ps', heap')
  | i, none :: ps, heap =>
      let (ps', heap') := fill unset (i + 1) ps (heap ++ [.new (Vec.toInt i) (unset heap.length)])
      (some heap.length :: ps', heap')

namespace Contexts

def resizeContexts (s : Contexts φ γ) (size : ℕ) : Contexts φ γ :=
  let (table, heap) := fill s.unset 0 (Vec.resize size none s.table) s.heap
  { s with table := table, heap := heap }

/-- `DEFAULT_FD_CONTEXTS_SIZE` -/
def defaultSize : ℕ := 32

/-- The table that the constructor makes. -/
def constructed (unset : ℕ → Events) : Contexts φ γ :=
  resizeContexts { unset := unset } defaultSize

/-- `fd * 1.5`, as a `size_t`. -/
def sizeFor (fd : Descriptor) : ℕ := fd * 3 / 2

/-- `fd_ctx = m_fd_contexts[fd]`, and the call goes on with the pointer; the other calls are
`rest`. -/
def access (s : Contexts φ γ) (c : TableCall φ γ) (phase : ℕ → Phase)
    (rest : List (TableCall φ γ)) : Contexts φ γ :=
  match s.table[c.fd.val]? with
  | none => { s with stopped := some .outOfRange, calls := rest }
  | some none => { s with stopped := some .null, calls := rest }
  | some (some p) => { s with calls := { c with phase := phase p } :: rest }

/-- The section under `fd_ctx->mtx`, with the success of its `epoll_ctl` call, and whether the
calling fiber is `RUNNING`. -/
def apply (o : FdContext φ γ) (pending : ℕ) (rt running : Bool) :
    Request φ γ → Except Assertion (Outcome φ γ)
  | .addEvent e func self => addEvent o pending e func self running rt
  | .delEvent e => delEvent o pending e rt
  | .cancelEvent e => cancelEvent o pending e rt
  | .cancelAll => cancelAll o pending rt

/-- The next section of the call `c`; the other calls are `rest`. -/
def proceed (s : Contexts φ γ) (c : TableCall φ γ) (rest : List (TableCall φ γ))
    (rt running : Bool) : Contexts φ γ :=
  match c.phase with
  | .grow => (s.resizeContexts (sizeFor c.fd)).access c .test rest
  | .look => s.access c .test rest
  | .test p =>
      match s.heap[p]?, c.req with
      | none, _ => { s with stopped := some .null, calls := rest }
      | some o, .addEvent e _ _ =>
          match addEventTest o.ctx e with
          | .error a => { s with stopped := some (.assertion a), calls := rest }
          | .ok () => { s with calls := { c with phase := .locked p } :: rest }
      | some _, _ => { s with calls := { c with phase := .locked p } :: rest }
  | .locked p =>
      match s.heap[p]? with
      | none => { s with stopped := some .null, calls := rest }
      | some o =>
          match apply o.ctx s.pending rt running c.req with
          | .error a => { s with stopped := some (.assertion a), calls := rest }
          | .ok out =>
              { s with heap := s.heap.set p { o with ctx := out.ctx }, pending := out.pending
                       calls := rest }

/-- The first section of a call. -/
def begin (s : Contexts φ γ) (fd : Descriptor) (req : Request φ γ) : Contexts φ γ :=
  let small := Vec.toInt s.table.length ≤ fd
  match req with
  | .addEvent _ _ _ =>
      { s with calls := { fd := fd, req := req, phase := if small then .grow else .look } :: s.calls }
  | _ => if small then s else s.access { fd := fd, req := req, phase := .look } .locked s.calls

end Contexts

/-- The actions: the beginning of a call, and the next section of a call under way. -/
inductive TableAct (φ γ : Type*)
  | begin (fd : Descriptor) (req : Request φ γ)
  | next (k : ℕ) (rt running : Bool)

def Contexts.step (s : Contexts φ γ) (a : TableAct φ γ) : Option (Contexts φ γ) :=
  if s.stopped.isSome then none
  else
    match a with
    | .begin fd req => some (s.begin fd req)
    | .next k rt running =>
        (s.calls[k]?).map fun c => s.proceed c (s.calls.eraseIdx k) rt running

/-- **There is room**: a table that is resized is not larger than what is asked for, and what is
asked for is at most `2 ^ 31`. -/
def Roomy (s : Contexts φ γ) : TableAct φ γ → Prop
  | .next k _ _ => ∀ c, s.calls[k]? = some c → c.phase = .grow →
      s.table.length ≤ Contexts.sizeFor c.fd ∧ Contexts.sizeFor c.fd ≤ 2 ^ 31
  | _ => True

instance (s : Contexts φ γ) (a : TableAct φ γ) : Decidable (Roomy s a) :=
  match a with
  | .begin _ _ => .isTrue trivial
  | .next k _ _ =>
      match hc : s.calls[k]? with
      | none => .isTrue (by simp [Roomy, hc])
      | some c =>
          decidable_of_iff (c.phase = .grow →
            s.table.length ≤ Contexts.sizeFor c.fd ∧ Contexts.sizeFor c.fd ≤ 2 ^ 31)
            (by simp [Roomy, hc])

/-- What a step can do. -/
inductive TableStep (s : Contexts φ γ) : TableAct φ γ → Contexts φ γ → Prop
  | add {fd : Descriptor} {req : Request φ γ} {phase : Phase} :
      phase = .grow ∨ phase = .look ∧ fd.val < s.table.length →
      TableStep s (.begin fd req)
        { s with calls := { fd := fd, req := req, phase := phase } :: s.calls }
  | refused {fd : Descriptor} {req : Request φ γ} : TableStep s (.begin fd req) s
  | find {fd : Descriptor} {req : Request φ γ} : fd.val < s.table.length →
      TableStep s (.begin fd req)
        (s.access { fd := fd, req := req, phase := .look } .locked s.calls)
  | grow {k : ℕ} {rt running : Bool} {c : TableCall φ γ} :
      s.calls[k]? = some c → c.phase = .grow →
      TableStep s (.next k rt running)
        ((s.resizeContexts (Contexts.sizeFor c.fd)).access c .test (s.calls.eraseIdx k))
  | look {k : ℕ} {rt running : Bool} {c : TableCall φ γ} :
      s.calls[k]? = some c → c.phase = .look →
      TableStep s (.next k rt running) (s.access c .test (s.calls.eraseIdx k))
  | test {k p : ℕ} {rt running : Bool} {c : TableCall φ γ} :
      s.calls[k]? = some c → c.phase = .test p →
      TableStep s (.next k rt running)
        { s with calls := { c with phase := .locked p } :: s.calls.eraseIdx k }
  | lost {k p : ℕ} {rt running : Bool} {c : TableCall φ γ} :
      s.calls[k]? = some c → c.phase = .test p ∨ c.phase = .locked p → s.heap[p]? = none →
      TableStep s (.next k rt running)
        { s with stopped := some .null, calls := s.calls.eraseIdx k }
  | fails {k : ℕ} {rt running : Bool} {a : Assertion} :
      TableStep s (.next k rt running)
        { s with stopped := some (.assertion a), calls := s.calls.eraseIdx k }
  | locked {k p : ℕ} {rt running : Bool} {c : TableCall φ γ} {o : Object φ γ} {out : Outcome φ γ} :
      s.calls[k]? = some c → c.phase = .locked p → s.heap[p]? = some o →
      TableStep s (.next k rt running)
        { s with heap := s.heap.set p { o with ctx := out.ctx }, pending := out.pending
                 calls := s.calls.eraseIdx k }

section Inversion

variable {s s' : Contexts φ γ} {a : TableAct φ γ}

lemma lt_of_passed {fd : Descriptor} (h : ¬ Vec.toInt s.table.length ≤ fd) :
    fd.val < s.table.length := by
  have := Vec.toInt_le s.table.length
  omega

lemma begin_inv (s : Contexts φ γ) (fd : Descriptor) (req : Request φ γ) :
    TableStep s (.begin fd req) (s.begin fd req) := by
  by_cases hsmall : Vec.toInt s.table.length ≤ fd
  · cases req with
    | addEvent e func self =>
        simp only [Contexts.begin, if_pos hsmall]
        exact .add (.inl rfl)
    | delEvent | cancelEvent | cancelAll =>
        simp only [Contexts.begin, if_pos hsmall]
        exact .refused
  · have hlt := lt_of_passed hsmall
    cases req with
    | addEvent e func self =>
        simp only [Contexts.begin, if_neg hsmall]
        exact .add (.inr ⟨rfl, hlt⟩)
    | delEvent | cancelEvent | cancelAll =>
        simp only [Contexts.begin, if_neg hsmall]
        exact .find hlt

lemma proceed_inv {k : ℕ} {c : TableCall φ γ} (hc : s.calls[k]? = some c) (rt running : Bool) :
    TableStep s (.next k rt running) (s.proceed c (s.calls.eraseIdx k) rt running) := by
  cases hphase : c.phase with
  | grow =>
      simp only [Contexts.proceed, hphase]
      exact .grow hc hphase
  | look =>
      simp only [Contexts.proceed, hphase]
      exact .look hc hphase
  | test p =>
      cases ho : s.heap[p]? with
      | none =>
          simp only [Contexts.proceed, hphase, ho]
          exact .lost hc (.inl hphase) ho
      | some o =>
          simp only [Contexts.proceed, hphase, ho]
          split
          · rename_i heq
            cases heq
          · split
            · exact .fails
            · exact .test hc hphase
          · exact .test hc hphase
  | locked p =>
      cases ho : s.heap[p]? with
      | none =>
          simp only [Contexts.proceed, hphase, ho]
          exact .lost hc (.inr hphase) ho
      | some o =>
          simp only [Contexts.proceed, hphase, ho]
          split
          · exact .fails
          · exact .locked hc hphase ho

theorem tableStep_inv (h : s.step a = some s') : s.stopped = none ∧ TableStep s a s' := by
  unfold Contexts.step at h
  split at h
  · cases h
  · rename_i hstop
    refine ⟨by simpa using hstop, ?_⟩
    cases a with
    | begin fd req =>
        cases h
        exact begin_inv s fd req
    | next k rt running =>
        obtain ⟨c, hc, rfl⟩ := Option.map_eq_some_iff.1 h
        exact proceed_inv hc rt running

end Inversion

/-! ### What a resize does -/

/-- The loop of `resizeContexts`: the contexts there are stay, and every null pointer gets a new one
for its index. -/
structure Filled (unset : ℕ → Events) (i : ℕ) (ps : List (Option ℕ)) (heap : List (Object φ γ))
    (ps' : List (Option ℕ)) (heap' : List (Object φ γ)) : Prop where
  length : ps'.length = ps.length
  grows : heap <+: heap'
  kept : ∀ k p : ℕ, ps[k]? = some (some p) → ps'[k]? = some (some p)
  made : ∀ k : ℕ, ps[k]? = some none →
    ∃ p : ℕ, ps'[k]? = some (some p) ∧ heap'[p]? = some (.new (Vec.toInt (i + k)) (unset p))

theorem fill_filled (unset : ℕ → Events) (i : ℕ) (ps : List (Option ℕ)) (heap : List (Object φ γ)) :
    Filled unset i ps heap (fill unset i ps heap).1 (fill unset i ps heap).2 := by
  induction ps generalizing i heap with
  | nil => exact ⟨rfl, List.prefix_rfl, fun k p h => by simp at h, fun k h => by simp at h⟩
  | cons x ps ih =>
      cases x with
      | some q =>
          have h := ih (i + 1) heap
          refine ⟨by simp [fill, h.length], h.grows, fun k p hk => ?_, fun k hk => ?_⟩
          · cases k with
            | zero => exact hk
            | succ k => exact h.kept k p hk
          · cases k with
            | zero => simp at hk
            | succ k =>
                obtain ⟨p, hp, ho⟩ := h.made k hk
                exact ⟨p, hp, by rw [show i + (k + 1) = i + 1 + k by omega]; exact ho⟩
      | none =>
          have h := ih (i + 1) (heap ++ [.new (Vec.toInt i) (unset heap.length)])
          have hpre : heap ++ [.new (Vec.toInt i) (unset heap.length)] <+:
              (fill unset i (none :: ps) heap).2 := h.grows
          refine ⟨by simp [fill, h.length], (List.prefix_append _ _).trans hpre, fun k p hk => ?_,
            fun k hk => ?_⟩
          · cases k with
            | zero => simp at hk
            | succ k => exact h.kept k p hk
          · cases k with
            | zero =>
                refine ⟨heap.length, rfl, ?_⟩
                exact Vec.getElem?_of_prefix hpre (by simp)
            | succ k =>
                obtain ⟨p, hp, ho⟩ := h.made k hk
                exact ⟨p, hp, by rw [show i + (k + 1) = i + 1 + k by omega]; exact ho⟩

/-- The table has not shrunk, its contexts are where they were, and none has lost its `fd`. -/
structure Kept (s s' : Contexts φ γ) : Prop where
  length : s.table.length ≤ s'.table.length
  table : ∀ i p : ℕ, s.table[i]? = some (some p) → s'.table[i]? = some (some p)
  heap : ∀ (p : ℕ) (o : Object φ γ), s.heap[p]? = some o →
    ∃ o', s'.heap[p]? = some o' ∧ o'.fd = o.fd

/-- Every index holds a context, for that index. -/
def FilledIn (s : Contexts φ γ) : Prop :=
  ∀ i < s.table.length, ∃ (p : ℕ) (o : Object φ γ),
    s.table[i]? = some (some p) ∧ s.heap[p]? = some o ∧ o.fd = i

section Kept

variable {s s' s'' : Contexts φ γ}

lemma Kept.refl (s : Contexts φ γ) : Kept s s := ⟨le_rfl, fun _ _ h => h, fun _ o h => ⟨o, h, rfl⟩⟩

lemma Kept.trans (h : Kept s s') (h' : Kept s' s'') : Kept s s'' := by
  refine ⟨h.length.trans h'.length, fun i p hi => h'.table i p (h.table i p hi), fun p o ho => ?_⟩
  obtain ⟨o', ho', hfd⟩ := h.heap p o ho
  obtain ⟨o'', ho'', hfd'⟩ := h'.heap p o' ho'
  exact ⟨o'', ho'', hfd'.trans hfd⟩

lemma Kept.of_eq (ht : s'.table = s.table) (hh : s'.heap = s.heap) : Kept s s' := by
  refine ⟨by rw [ht], fun i p hi => by rwa [ht], fun p o ho => ⟨o, by rwa [hh], rfl⟩⟩

lemma FilledIn.kept (h : FilledIn s) (hk : Kept s s') (ht : s'.table = s.table) : FilledIn s' := by
  intro i hi
  rw [ht] at hi
  obtain ⟨p, o, hp, ho, hfd⟩ := h i hi
  obtain ⟨o', ho', hfd'⟩ := hk.heap p o ho
  exact ⟨p, o', hk.table i p hp, ho', hfd'.trans hfd⟩

lemma FilledIn.inj (h : FilledIn s) {i j p : ℕ} (hi : s.table[i]? = some (some p))
    (hj : s.table[j]? = some (some p)) : i = j := by
  obtain ⟨q, o, hq, ho, hfd⟩ := h i (List.getElem?_eq_some_iff.1 hi).1
  obtain ⟨q', o', hq', ho', hfd'⟩ := h j (List.getElem?_eq_some_iff.1 hj).1
  obtain rfl : p = q := by simpa [hi] using hq
  obtain rfl : p = q' := by simpa [hj] using hq'
  obtain rfl : o = o' := by simpa [ho] using ho'
  omega

lemma kept_set {p : ℕ} {o : Object φ γ} (pending : ℕ) (rest : List (TableCall φ γ))
    (ctx : FdContext φ γ) (ho : s.heap[p]? = some o) :
    Kept s { s with heap := s.heap.set p { o with ctx := ctx }, pending := pending, calls := rest } := by
  refine ⟨le_rfl, fun _ _ hi => hi, fun q o' ho' => ?_⟩
  by_cases hq : q = p
  · subst hq
    obtain rfl : o = o' := by simpa [ho] using ho'
    refine ⟨{ o with ctx := ctx }, ?_, rfl⟩
    rw [List.getElem?_set_self (List.getElem?_eq_some_iff.1 ho).1]
  · exact ⟨o', by rw [List.getElem?_set_ne (Ne.symm hq)]; exact ho', rfl⟩

variable (s) {size : ℕ}

lemma resizeContexts_filled (size : ℕ) :
    Filled s.unset 0 (Vec.resize size none s.table) s.heap
      (s.resizeContexts size).table (s.resizeContexts size).heap := fill_filled _ _ _ _

@[simp] lemma length_resizeContexts : (s.resizeContexts size).table.length = size := by
  rw [(resizeContexts_filled s _).length, Vec.length_resize]

variable {s}

lemma kept_resizeContexts (hsize : s.table.length ≤ size) : Kept s (s.resizeContexts size) := by
  have h := resizeContexts_filled s size
  refine ⟨by simpa using hsize, fun i p hi => h.kept i p ?_, fun p o ho =>
    ⟨o, Vec.getElem?_of_prefix h.grows ho, rfl⟩⟩
  have hlt : i < s.table.length := (List.getElem?_eq_some_iff.1 hi).1
  rw [Vec.getElem?_resize hlt (hlt.trans_le hsize)]
  exact hi

/-- **Growing fills the table**: what is above the old size gets contexts of its own. -/
lemma FilledIn.resizeContexts (hf : FilledIn s) (hsize : s.table.length ≤ size)
    (hmost : size ≤ 2 ^ 31) : FilledIn (s.resizeContexts size) := by
  have h := resizeContexts_filled s size
  intro i hi
  rw [length_resizeContexts] at hi
  by_cases hlt : i < s.table.length
  · obtain ⟨p, o, hp, ho, hfd⟩ := hf i hlt
    exact ⟨p, o, (kept_resizeContexts hsize).table i p hp, Vec.getElem?_of_prefix h.grows ho, hfd⟩
  · obtain ⟨p, hp, ho⟩ := h.made i (Vec.getElem?_resize_new (by omega) hi)
    refine ⟨p, _, hp, ho, ?_⟩
    have hint : i < 2 ^ 31 := hi.trans_le hmost
    show Vec.toInt (0 + i) = i
    rw [Nat.zero_add, Vec.toInt_of_lt hint]

end Kept

/-! ### The invariant -/

/-- A call is where it can be: it has passed the size test, or has the pointer of its descriptor. -/
def TableCall.Placed (s : Contexts φ γ) (c : TableCall φ γ) : Prop :=
  match c.phase with
  | .grow => True
  | .look => c.fd.val < s.table.length
  | .test p | .locked p => s.table[c.fd.val]? = some (some p)

structure Sound (s : Contexts φ γ) : Prop where
  filled : FilledIn s
  least : Contexts.defaultSize ≤ s.table.length
  most : s.table.length ≤ 2 ^ 31
  placed : ∀ c ∈ s.calls, c.Placed s
  inRange : s.stopped ≠ some .outOfRange
  notNull : s.stopped ≠ some .null

section Steps

variable {unset : ℕ → Events} {s s' : Contexts φ γ} {c : TableCall φ γ}
  {rest : List (TableCall φ γ)}

lemma TableCall.Placed.kept (h : c.Placed s) (hk : Kept s s') : c.Placed s' := by
  unfold Placed at h ⊢
  split
  · trivial
  · rename_i hp
    simp only [hp] at h
    exact h.trans_le hk.length
  · rename_i p hp
    simp only [hp] at h
    exact hk.table _ p h
  · rename_i p hp
    simp only [hp] at h
    exact hk.table _ p h

lemma TableCall.Placed.pointer {p : ℕ} (h : c.Placed s)
    (hphase : c.phase = .test p ∨ c.phase = .locked p) : s.table[c.fd.val]? = some (some p) := by
  rcases hphase with hphase | hphase <;> simpa only [Placed, hphase] using h

lemma access_table (phase : ℕ → Phase) : (s.access c phase rest).table = s.table := by
  unfold Contexts.access
  split <;> rfl

lemma access_heap (phase : ℕ → Phase) : (s.access c phase rest).heap = s.heap := by
  unfold Contexts.access
  split <;> rfl

/-- A section that gets its pointer from the table leaves the table and the objects. -/
lemma kept_access (phase : ℕ → Phase) : Kept s (s.access c phase rest) :=
  .of_eq (access_table phase) (access_heap phase)

/-- **An access behind the size test** gives the context of the descriptor. -/
lemma Sound.access (hf : FilledIn s) (hleast : Contexts.defaultSize ≤ s.table.length)
    (hmost : s.table.length ≤ 2 ^ 31) (hrest : ∀ d ∈ rest, d.Placed s) (hrun : s.stopped = none)
    (hlt : c.fd.val < s.table.length) (phase : ℕ → Phase)
    (hphase : phase = .test ∨ phase = .locked) : Sound (s.access c phase rest) := by
  obtain ⟨p, o, hp, -, -⟩ := hf _ hlt
  have heq : s.access c phase rest = { s with calls := { c with phase := phase p } :: rest } := by
    simp [Contexts.access, hp]
  rw [heq]
  refine ⟨hf, hleast, hmost, fun d hd => ?_, by simp [hrun], by simp [hrun]⟩
  rcases List.mem_cons.1 hd with rfl | hd
  · rcases hphase with rfl | rfl <;> exact hp
  · exact hrest d hd

/-- The objects of other descriptors are not touched, and those of its own only by the section of a
call under the lock. -/
def Untouched (s : Contexts φ γ) (a : TableAct φ γ) (s' : Contexts φ γ) : Prop :=
  ∀ (i p : ℕ) (o : Object φ γ), s.table[i]? = some (some p) → s.heap[p]? = some o →
    s'.heap[p]? = some o ∨ ∃ k rt running c, a = .next k rt running ∧ s.calls[k]? = some c ∧
      c.phase = .locked p ∧ c.fd.val = i

/-- The objects are what they were, as long as they are. -/
lemma untouched_of_prefix {a : TableAct φ γ} (h : s.heap <+: s'.heap) : Untouched s a s' :=
  fun _ _ _ _ ho => .inl (Vec.getElem?_of_prefix h ho)

/-- **A step keeps the table**, and touches at most the context of its descriptor. -/
theorem Sound.step {a : TableAct φ γ} (h : Sound s) (hrun : s.stopped = none) (hg : Roomy s a)
    (hs : TableStep s a s') : Sound s' ∧ Kept s s' ∧ Untouched s a s' := by
  have herase : ∀ {k}, ∀ d ∈ s.calls.eraseIdx k, d.Placed s := fun d hd =>
    h.placed d (List.mem_of_mem_eraseIdx hd)
  cases hs with
  | @add fd req phase hphase =>
      refine ⟨⟨h.filled, h.least, h.most, fun d hd => ?_, h.inRange, h.notNull⟩, .of_eq rfl rfl,
        untouched_of_prefix List.prefix_rfl⟩
      rcases List.mem_cons.1 hd with rfl | hd
      · rcases hphase with rfl | ⟨rfl, hlt⟩
        · trivial
        · exact hlt
      · exact h.placed d hd
  | refused => exact ⟨h, .refl s, untouched_of_prefix List.prefix_rfl⟩
  | @find fd req hlt =>
      refine ⟨.access h.filled h.least h.most h.placed hrun hlt _ (.inr rfl), kept_access _, ?_⟩
      exact untouched_of_prefix (access_heap _ ▸ List.prefix_rfl)
  | @grow k rt running c hc hphase =>
      obtain ⟨hroom, hmost⟩ := hg c hc hphase
      have hkept := kept_resizeContexts hroom
      have hleast := h.least
      have hlt : c.fd.val < (s.resizeContexts (Contexts.sizeFor c.fd)).table.length := by
        rw [length_resizeContexts]
        simp only [Contexts.defaultSize, Contexts.sizeFor] at *
        omega
      have hfilled := h.filled.resizeContexts hroom hmost
      refine ⟨.access hfilled ?_ ?_ (fun d hd => (herase d hd).kept hkept) hrun hlt _ (.inl rfl),
        hkept.trans (kept_access _), untouched_of_prefix ?_⟩
      · rw [length_resizeContexts]
        exact hleast.trans hroom
      · rwa [length_resizeContexts]
      · rw [access_heap]
        exact (resizeContexts_filled s _).grows
  | @look k rt running c hc hphase =>
      have hlt : c.fd.val < s.table.length := by
        have := h.placed c (List.mem_of_getElem? hc)
        simpa only [TableCall.Placed, hphase] using this
      refine ⟨.access h.filled h.least h.most herase hrun hlt _ (.inl rfl), kept_access _, ?_⟩
      exact untouched_of_prefix (access_heap _ ▸ List.prefix_rfl)
  | @test k p rt running c hc hphase =>
      have hp := (h.placed c (List.mem_of_getElem? hc)).pointer (.inl hphase)
      refine ⟨⟨h.filled, h.least, h.most, fun d hd => ?_, h.inRange, h.notNull⟩, .of_eq rfl rfl,
        untouched_of_prefix List.prefix_rfl⟩
      rcases List.mem_cons.1 hd with rfl | hd
      · exact hp
      · exact herase d hd
  | @lost k p rt running c hc hphase hnone =>
      have hp := (h.placed c (List.mem_of_getElem? hc)).pointer hphase
      obtain ⟨q, o, hq, ho, -⟩ := h.filled _ (List.getElem?_eq_some_iff.1 hp).1
      obtain rfl : p = q := by simpa [hp] using hq
      rw [hnone] at ho
      cases ho
  | fails =>
      exact ⟨⟨h.filled, h.least, h.most, herase, by simp, by simp⟩, .of_eq rfl rfl,
        untouched_of_prefix List.prefix_rfl⟩
  | @locked k p rt running c o out hc hphase ho =>
      have hp := (h.placed c (List.mem_of_getElem? hc)).pointer (.inr hphase)
      have hkept := kept_set out.pending (s.calls.eraseIdx k) out.ctx ho
      refine ⟨⟨h.filled.kept hkept rfl, h.least, h.most, fun d hd => (herase d hd).kept hkept,
        h.inRange, h.notNull⟩, hkept, fun i q o' hi ho' => ?_⟩
      by_cases hq : q = p
      · subst hq
        exact .inr ⟨k, rt, running, c, rfl, hc, hphase, h.filled.inj hp hi⟩
      · exact .inl (by rw [List.getElem?_set_ne (Ne.symm hq)]; exact ho')

/-! ### Whole runs -/

lemma sound_constructed (unset : ℕ → Events) :
    Sound (Contexts.constructed unset : Contexts φ γ) where
  filled := FilledIn.resizeContexts (fun i hi => absurd hi (Nat.not_lt_zero i)) (Nat.zero_le _)
    (by decide)
  least := by rw [Contexts.constructed, length_resizeContexts]
  most := by
    rw [Contexts.constructed, length_resizeContexts]
    decide
  placed _ hc := absurd hc List.not_mem_nil
  inRange := by simp [Contexts.constructed, Contexts.resizeContexts]
  notNull := by simp [Contexts.constructed, Contexts.resizeContexts]

theorem Sound.of_reach
    (h : Reach Contexts.step Roomy (Contexts.constructed unset : Contexts φ γ) s) : Sound s :=
  h.inv (sound_constructed unset) fun _ hx hg hs =>
    (hx.step (tableStep_inv hs).1 hg (tableStep_inv hs).2).1

theorem Kept.of_reach (hx : Sound s) (h : Reach Contexts.step Roomy s s') : Kept s s' := by
  refine (h.inv (P := fun t => Sound t ∧ Kept s t) ⟨hx, .refl s⟩ fun _ hy hg hs => ?_).2
  obtain ⟨hrun, hstep⟩ := tableStep_inv hs
  obtain ⟨hsound, hkept, -⟩ := hy.1.step hrun hg hstep
  exact ⟨hsound, hy.2.trans hkept⟩

/-- **The contexts stay**, in every run in which each resize has room. From the table of the
constructor on, whatever mask a new context has, every index below the size holds a context whose
`fd` is the index; no access is out of range, and a call that has got a pointer has that of its
descriptor; the table does not shrink and a context stays at its index in all that follows; and a
step leaves every context in the table as it is, but for the section of a call under the lock, which
works on that of its descriptor. -/
theorem contexts_stay
    (h : Reach Contexts.step Roomy (Contexts.constructed unset : Contexts φ γ) s) :
    (∀ i < s.table.length, ∃ (p : ℕ) (o : Object φ γ),
      s.table[i]? = some (some p) ∧ s.heap[p]? = some o ∧ o.fd = i) ∧
    (s.stopped ≠ some .outOfRange ∧ s.stopped ≠ some .null) ∧
    (∀ c ∈ s.calls, ∀ p, c.phase = .test p ∨ c.phase = .locked p →
      s.table[c.fd.val]? = some (some p)) ∧
    (∀ s', Reach Contexts.step Roomy s s' → s.table.length ≤ s'.table.length ∧
      ∀ i p : ℕ, s.table[i]? = some (some p) → s'.table[i]? = some (some p)) ∧
    (∀ a s', Roomy s a → s.step a = some s' → Untouched s a s') := by
  have hx := Sound.of_reach h
  refine ⟨hx.filled, ⟨hx.inRange, hx.notNull⟩, fun c hc p hphase => (hx.placed c hc).pointer hphase,
    fun s' hs' => ?_, fun a s' hg hs => ?_⟩
  · have hkept := Kept.of_reach hx hs'
    exact ⟨hkept.length, hkept.table⟩
  · obtain ⟨hrun, hstep⟩ := tableStep_inv hs
    exact (hx.step hrun hg hstep).2.2

end Steps

theorem contexts_stay_grown :
    ∃ s : Contexts ℕ ℕ, s.table.length = 150 ∧ ∃ (p : ℕ) (o : Object ℕ ℕ),
      s.table[100]? = some (some p) ∧ s.heap[p]? = some o ∧ o.fd = 100 := by
  have h : (run Contexts.step (fun s a => decide (Roomy s a))
      (Contexts.constructed (fun _ => .none) : Contexts ℕ ℕ)
      [.begin 100 (.addEvent .read none 7), .next 0 true true, .next 0 true true,
        .next 0 true true]).any (fun s => s.table.length == 150) = true := by decide +kernel
  obtain ⟨s, hr, hs⟩ := exists_reach_of_run (fun _ _ => of_decide_eq_true) h
  have hlength : s.table.length = 150 := by simpa using hs
  exact ⟨s, hlength, (contexts_stay hr).1 100 (by omega)⟩

/-- **The table is cut down.** One thread wants to register 100, another one 40, and both find the
table too small. The first one makes it 150 entries long and gets its context; a third one, which
registers 120, passes the size test; then the second one cuts the table to 60 entries. The context
of 100 is no longer in the table, and the access of the third thread is out of range. -/
theorem cut_down :
    ∃ s s' : Contexts ℕ ℕ, Reach Contexts.step Free (Contexts.constructed fun _ => .none) s ∧
      Reach Contexts.step Free s s' ∧ s.table.length = 150 ∧
      (s.table[100]?).any Option.isSome = true ∧ s'.table.length = 60 ∧
      s'.table[100]? = none ∧ s'.stopped = some .outOfRange := by
  have h : (run Contexts.step (fun _ _ => true)
      (Contexts.constructed (fun _ => .none) : Contexts ℕ ℕ)
      [.begin 100 (.addEvent .read none 7), .begin 40 (.addEvent .read none 8),
        .next 1 true true]).any (fun s =>
      decide (s.table.length = 150 ∧ (s.table[100]?).any Option.isSome = true) &&
        (run Contexts.step (fun _ _ => true) s
          [.begin 120 (.addEvent .read none 9), .next 2 true true, .next 1 true true]).any
        (fun s' => decide (s'.table.length = 60 ∧ s'.table[100]? = none ∧
          s'.stopped = some .outOfRange))) = true := by decide +kernel
  obtain ⟨s, hr, hs⟩ := exists_reach_of_run (G := Free) (fun _ _ _ => trivial) h
  obtain ⟨hgrown, hrest⟩ := Bool.and_eq_true_iff.1 hs
  obtain ⟨s', hr', hs'⟩ := exists_reach_of_run (G := Free) (fun _ _ _ => trivial) hrest
  obtain ⟨hlength, hctx⟩ := of_decide_eq_true hgrown
  exact ⟨s, s', hr, hr', hlength, hctx, of_decide_eq_true hs'⟩

end Eva01.IOManager
