import Eva01.Hook.FdManager
import Eva01.Lib.Runs

/-!
`FdManager` in the hands of several threads: which `FdCtx` objects `get` returns.

Here `m_datas` is a table of pointers to numbered objects, and `get(fd, true)` has two sections, the
lookup under the read lock and the creation under the write lock. Between them any other section may
run; the calls that are there are a list of descriptors (`missed`). What a thread gets back is
remembered for each descriptor up to the next `del`. A context is written through the pointers that
were returned, whether or not the table still has it.

Seen through the pointers the sections are the functions of `FdManager` (`table_lookup`,
`table_create`, `table_del`).

The creation does not look again whether there is a context. Two threads that both miss make one
each, and the second overwrites the first, which its thread goes on using. So there is one context
for each descriptor exactly as long as every creation finds its place empty, and, beyond the sizes
that fit an `int`, as the resize of the table cuts nothing off (`one_context_iff_alone`).
-/

namespace Eva01.Hook

open Eva01.Lib Eva01.Lib.Runs

/-! ### Objects and pointers -/

/-- `m_datas`, with the objects it points to. -/
structure Objects where
  datas : List (Option ℕ) := List.replicate 64 none
  heap : ℕ → FdCtx := fun _ => { fd := -1 }
  /-- The number the next object gets. -/
  fresh : ℕ := 0
  /-- Only objects are pointed to. -/
  below : ∀ p, some p ∈ datas → p < fresh := by simp

/-- How the section under the read lock ends. -/
inductive Looked
  | returned (p : Option ℕ)
  /-- The call goes on to the section under the write lock. -/
  | missed
  deriving DecidableEq, Repr

namespace Objects

variable {o o' : Objects} {fd fd' : ℤ} {c : FdCtx} {p : ℕ}

/-- `(int)m_datas.size()` -/
def size (o : Objects) : ℤ := Vec.toInt o.datas.length

/-- The pointer stored for a descriptor. -/
def entry (o : Objects) (fd : ℤ) : Option ℕ := Vec.held o.datas fd

/-- `get(fd, auto_create)`, up to the end of the read lock. -/
def lookup (o : Objects) (fd : ℤ) (autoCreate : Bool) : Except Fail Looked :=
  if fd = -1 then .ok (.returned none)
  else if o.size ≤ fd then .ok (if autoCreate then .missed else .returned none)
  else if fd < 0 then .error .outOfRange
  else
    match o.datas[fd.toNat]? with
    | none => .error .outOfRange
    | some p => .ok (if p.isSome || !autoCreate then .returned p else .missed)

/-- `m_datas`, resized for `fd` if it has to be. -/
def grow (o : Objects) (fd : ℤ) : List (Option ℕ) :=
  if o.size ≤ fd then Vec.resize (fd.toNat * 3 / 2) none o.datas else o.datas

lemma mem_grow (h : some p ∈ o.grow fd) : some p ∈ o.datas := by
  unfold grow Vec.resize at h
  split at h
  · rcases List.mem_append.1 h with h | h
    · exact List.mem_of_mem_take h
    · cases (List.mem_replicate.1 h).2
  · exact h

/-- The end of `get(fd, true)`, under the write lock, with the context that is constructed: the
state, and the object returned. -/
def create (o : Objects) (fd : ℤ) (c : FdCtx) : Except Fail (Objects × ℕ) :=
  if 0 ≤ fd ∧ fd.toNat < (o.grow fd).length then
    .ok ({ datas := (o.grow fd).set fd.toNat (some o.fresh)
           heap := Function.update o.heap o.fresh c
           fresh := o.fresh + 1
           below := fun p hp => by
             rcases List.mem_or_eq_of_mem_set hp with hp | hp
             · exact Nat.lt_succ_of_lt (o.below p (mem_grow hp))
             · cases hp
               exact Nat.lt_succ_self _ }, o.fresh)
  else .error .outOfRange

/-- The section of `del`. -/
def del (o : Objects) (fd : ℤ) : Except Fail Objects :=
  if o.size ≤ fd then .ok o
  else if fd < 0 then .error .outOfRange
  else
    .ok { o with
      datas := o.datas.set fd.toNat none
      below := fun p hp => by
        rcases List.mem_or_eq_of_mem_set hp with hp | hp
        · exact o.below p hp
        · cases hp }

/-- Writing through a pointer. -/
def write (o : Objects) (p : ℕ) (c : FdCtx) : Objects :=
  { o with heap := Function.update o.heap p c }

/-! ### The table behind the pointers -/

/-- The contexts that the table points to. -/
def table (o : Objects) : FdManager := { datas := o.datas.map (Option.map o.heap) }

lemma entry_table : o.table.entry fd = (o.entry fd).map o.heap := Vec.held_map

lemma size_table : o.table.size = o.size := by simp [FdManager.size, size, table]

/-- The context a lookup shows. -/
def Looked.context (o : Objects) : Looked → Option FdCtx
  | .returned p => p.map o.heap
  | .missed => none

theorem table_lookup (o : Objects) (fd : ℤ) :
    (o.lookup fd false).map (Looked.context o) = o.table.get fd := by
  unfold lookup FdManager.get FdManager.slot
  rw [size_table]
  split
  · rfl
  · split
    · rfl
    · split
      · rfl
      · rw [show o.table.datas = o.datas.map (Option.map o.heap) from rfl, List.getElem?_map]
        cases o.datas[fd.toNat]? <;> simp [Except.map, Looked.context]

lemma grow_table : o.table.grow fd = (o.grow fd).map (Option.map o.heap) := by
  unfold FdManager.grow grow
  rw [size_table]
  split
  · simp [table, Vec.resize, List.map_take]
  · rfl

lemma map_update {l : List (Option ℕ)} (h : ∀ p, some p ∈ l → p < o.fresh) :
    l.map (Option.map (Function.update o.heap o.fresh c)) = l.map (Option.map o.heap) := by
  refine List.map_congr_left fun x hx => ?_
  cases x with
  | none => rfl
  | some p => rw [Option.map_some, Option.map_some, Function.update_of_ne (h p hx).ne]

theorem table_create (o : Objects) (fd : ℤ) (c : FdCtx) :
    (o.create fd c).map (fun r => r.1.table) = o.table.store fd c := by
  unfold create FdManager.store
  rw [grow_table, List.length_map]
  split
  · have hgrow : ∀ p, some p ∈ o.grow fd → p < o.fresh := fun p hp => o.below p (mem_grow hp)
    simp [Except.map, table, List.map_set, map_update hgrow]
  · rfl

theorem table_del (o : Objects) (fd : ℤ) : (o.del fd).map table = o.table.del fd := by
  unfold del FdManager.del
  rw [size_table]
  split
  · rfl
  · split
    · rfl
    · simp [Except.map, table, List.map_set]

/-! ### What a section does to the entries -/

lemma entry_of_returned {b : Bool} (h : o.lookup fd b = .ok (.returned (some p))) :
    o.entry fd = some p := by
  unfold lookup at h
  split at h
  · cases h
  · split at h
    · split at h <;> cases h
    · split at h
      · cases h
      · rw [entry, Vec.held_of_nonneg (by omega)]
        split at h
        · cases h
        · rename_i q hq
          split at h <;> cases h
          rw [hq]
          rfl

lemma create_entries (h : o.create fd c = .ok (o', p)) :
    p = o.fresh ∧ o'.entry fd = some p ∧ fd.toNat < (o.grow fd).length ∧
      ∀ fd' ≠ fd, o'.entry fd' = Vec.held (o.grow fd) fd' := by
  unfold create at h
  split at h
  · rename_i hroom
    cases h
    exact ⟨rfl, Vec.held_set_self hroom.1 hroom.2, hroom.2,
      fun fd' hne => Vec.held_set_of_ne hroom.1 hne⟩
  · cases h

lemma lt_fresh (h : o.entry fd = some p) : p < o.fresh := by
  obtain ⟨hpos, hlt⟩ := Vec.lt_length_of_held h
  rw [entry, Vec.held_of_nonneg hpos, List.getElem?_eq_getElem hlt] at h
  exact o.below p ((show o.datas[fd.toNat] = some p from h) ▸ List.getElem_mem hlt)

/-- Resizing keeps a context that is below the new size, and cuts off the others. -/
lemma held_grow (h : o.entry fd' = some p) : Vec.held (o.grow fd) fd' =
    if fd'.toNat < (o.grow fd).length then some p else none := by
  split
  · rename_i hlt
    unfold grow at hlt ⊢
    split
    · rename_i hle
      rw [if_pos hle, Vec.length_resize] at hlt
      rw [Vec.held_resize hlt]
      exact h
    · exact h
  · exact Vec.held_of_le (by omega)

lemma del_entries (h : o.del fd = .ok o') (hne : fd' ≠ fd) : o'.entry fd' = o.entry fd' := by
  unfold del at h
  split at h
  · cases h
    rfl
  · split at h
    · cases h
    · cases h
      exact Vec.held_set_of_ne (by omega) hne

end Objects

/-! ### The threads -/

/-- The table, the calls between the two sections of `get(fd, true)`, and what has been returned for
each descriptor since its last `del`. -/
structure Users where
  objs : Objects := {}
  missed : List ℤ := []
  returned : ℤ → List ℕ := fun _ => []

/-- The sections, and a write through a pointer. -/
inductive UserAct
  | get (fd : ℤ) (autoCreate : Bool)
  /-- The call `k` of those that have missed creates the context `c`. -/
  | create (k : ℕ) (c : FdCtx)
  | del (fd : ℤ)
  | write (p : ℕ) (c : FdCtx)

namespace Users

/-- A thread gets `p` for `fd`. -/
def give (s : Users) (fd : ℤ) (p : ℕ) : Users :=
  { s with returned := Function.update s.returned fd (p :: s.returned fd) }

/-- The call `k`, for `fd`, has created the object `p`. -/
def created (s : Users) (k : ℕ) (fd : ℤ) (o : Objects) (p : ℕ) : Users :=
  { s with objs := o, missed := s.missed.eraseIdx k }.give fd p

/-- A section that indexes the table out of range has no next state. -/
def step (s : Users) : UserAct → Option Users
  | .get fd autoCreate =>
      match s.objs.lookup fd autoCreate with
      | .error _ => none
      | .ok (.returned none) => some s
      | .ok (.returned (some p)) => some (s.give fd p)
      | .ok .missed => some { s with missed := fd :: s.missed }
  | .create k c =>
      match s.missed[k]? with
      | none => none
      | some fd =>
          match s.objs.create fd c with
          | .error _ => none
          | .ok (o, p) => some (s.created k fd o p)
  | .del fd =>
      match s.objs.del fd with
      | .error _ => none
      | .ok o => some { s with objs := o, returned := Function.update s.returned fd [] }
  | .write p c => some { s with objs := s.objs.write p c }

end Users

/-- What is returned for a descriptor is what is stored for it, and so always the same. -/
def OneContext (s : Users) : Prop := ∀ fd, ∀ p ∈ s.returned fd, s.objs.entry fd = some p

/-- What is stored for a descriptor has been returned. -/
def StoredReturned (s : Users) : Prop := ∀ fd p, s.objs.entry fd = some p → p ∈ s.returned fd

/-- The creation finds its place empty, and no context beyond the size it gives the table. -/
def Objects.Alone (o : Objects) (fd : ℤ) : Prop :=
  o.entry fd = none ∧ ∀ fd' p, o.entry fd' = some p → fd'.toNat < (o.grow fd).length

/-- A creation is made alone. -/
def CreatesAlone (s : Users) : UserAct → Prop
  | .create k _ => ∀ fd ∈ s.missed[k]?, s.objs.Alone fd
  | _ => True

section Law

variable {s s' : Users} {a : UserAct} {fd : ℤ} {p : ℕ}

/-- What a step can do. -/
inductive UserStep (s : Users) : UserAct → Users → Prop
  | nothing {fd : ℤ} {b : Bool} : UserStep s (.get fd b) s
  | found {fd : ℤ} {b : Bool} {p : ℕ} :
      s.objs.lookup fd b = .ok (.returned (some p)) → UserStep s (.get fd b) (s.give fd p)
  | missed {fd : ℤ} {b : Bool} : UserStep s (.get fd b) { s with missed := fd :: s.missed }
  | create {k : ℕ} {c : FdCtx} {fd : ℤ} {o : Objects} {p : ℕ} :
      s.missed[k]? = some fd → s.objs.create fd c = .ok (o, p) →
      UserStep s (.create k c) (s.created k fd o p)
  | del {fd : ℤ} {o : Objects} : s.objs.del fd = .ok o →
      UserStep s (.del fd) { s with objs := o, returned := Function.update s.returned fd [] }
  | write {p : ℕ} {c : FdCtx} : UserStep s (.write p c) { s with objs := s.objs.write p c }

theorem Users.step_inv (h : s.step a = some s') : UserStep s a s' := by
  cases a with
  | get fd b =>
      simp only [step] at h
      split at h <;> cases h
      · exact .nothing
      · exact .found ‹_›
      · exact .missed
  | create k c =>
      simp only [step] at h
      split at h
      · cases h
      · split at h <;> cases h
        exact .create ‹_› ‹_›
  | del fd =>
      simp only [step] at h
      split at h <;> cases h
      exact .del ‹_›
  | write p c =>
      cases h
      exact .write

lemma OneContext.give (h : OneContext s) (hp : s.objs.entry fd = some p) :
    OneContext (s.give fd p) := by
  intro fd' q hq
  by_cases hfd : fd' = fd
  · subst hfd
    simp only [Users.give, Function.update_self] at hq
    rcases List.mem_cons.1 hq with rfl | hq
    · exact hp
    · exact h fd' q hq
  · simp only [Users.give, Function.update_of_ne hfd] at hq
    exact h fd' q hq

/-- A creation that is made alone keeps the law: nothing has been returned for its descriptor. -/
lemma OneContext.create (h : OneContext s) (halone : s.objs.Alone fd) {k : ℕ} {c : FdCtx}
    {o : Objects} (hc : s.objs.create fd c = .ok (o, p)) : OneContext (s.created k fd o p) := by
  obtain ⟨-, hself, -, hother⟩ := Objects.create_entries hc
  refine OneContext.give (fun fd' q hq => ?_) hself
  have hold : s.objs.entry fd' = some q := h fd' q hq
  have hne : fd' ≠ fd := by
    rintro rfl
    rw [halone.1] at hold
    cases hold
  exact (hother fd' hne).trans ((Objects.held_grow hold).trans (if_pos (halone.2 fd' q hold)))

/-- A creation that is not made alone breaks it: a context is overwritten or cut off that a thread
has. -/
lemma OneContext.alone_of_create (hst : StoredReturned s) {k : ℕ} {c : FdCtx} {o : Objects}
    (hc : s.objs.create fd c = .ok (o, p)) (hlaw : OneContext (s.created k fd o p)) :
    s.objs.Alone fd := by
  obtain ⟨hp, hself, hroom, hother⟩ := Objects.create_entries hc
  constructor
  · by_contra hne
    obtain ⟨q, hq⟩ := Option.ne_none_iff_exists'.1 hne
    have hmem : q ∈ (s.created k fd o p).returned fd := by
      simp [Users.created, Users.give, hst fd q hq]
    have hnew : o.entry fd = some q := hlaw fd q hmem
    have hlt := Objects.lt_fresh hq
    rw [hself] at hnew
    cases hnew
    omega
  · intro fd' q hq
    by_contra hcut
    have hne : fd' ≠ fd := fun he => hcut (he ▸ hroom)
    have hmem : q ∈ (s.created k fd o p).returned fd' := by
      simpa [Users.created, Users.give, Function.update_of_ne hne] using hst fd' q hq
    have hkept : o.entry fd' = some q := hlaw fd' q hmem
    rw [hother fd' hne, Objects.held_grow hq, if_neg hcut] at hkept
    cases hkept

lemma OneContext.del (h : OneContext s) {o : Objects} (hd : s.objs.del fd = .ok o) :
    OneContext { s with objs := o, returned := Function.update s.returned fd [] } := by
  intro fd' q hq
  by_cases hfd : fd' = fd
  · subst hfd
    simp at hq
  · simp only [Function.update_of_ne hfd] at hq
    exact (Objects.del_entries hd hfd).trans (h fd' q hq)

theorem OneContext.step (h : OneContext s) (hg : CreatesAlone s a) (hs : UserStep s a s') :
    OneContext s' := by
  cases hs with
  | nothing | missed | write => exact h
  | found hl => exact h.give (Objects.entry_of_returned hl)
  | create hk hc => exact h.create (hg _ hk) hc
  | del hd => exact h.del hd

theorem OneContext.alone_of_step (hst : StoredReturned s) (hs : UserStep s a s')
    (h' : OneContext s') : CreatesAlone s a := by
  cases hs with
  | @create k c fd o p hk hc =>
      intro fd' hfd'
      cases Option.some.inj (hk.symm.trans hfd')
      exact OneContext.alone_of_create hst hc h'
  | nothing | found | missed | del | write => trivial

/-- **One context for each descriptor, as long as contexts are created alone.** In every run of any
threads in which every creation finds its place in the table empty and cuts no other context off,
whatever `get` has returned for a descriptor since its last `del` is one object, the one that is
stored; what is written through one of the pointers is what the table shows for the descriptor. Where
the stored contexts are known to threads, a creation that is not made alone ends this. -/
theorem one_context_iff_alone (s : Users) :
    (Reach Users.step CreatesAlone {} s → ∀ fd, ∀ p ∈ s.returned fd,
      (∀ q ∈ s.returned fd, q = p) ∧ s.objs.entry fd = some p ∧
        s.objs.table.entry fd = some (s.objs.heap p)) ∧
    (∀ s' a, OneContext s → StoredReturned s → s.step a = some s' →
      (OneContext s' ↔ CreatesAlone s a)) := by
  refine ⟨fun hr fd p hp => ?_, fun s' a h hst hs =>
    ⟨OneContext.alone_of_step hst (Users.step_inv hs), fun hg => h.step hg (Users.step_inv hs)⟩⟩
  have hlaw : OneContext s := hr.inv (fun fd p hp => absurd hp List.not_mem_nil)
    fun _ hx hg hs => hx.step hg (Users.step_inv hs)
  have hentry := hlaw fd p hp
  refine ⟨fun q hq => ?_, hentry, by rw [Objects.entry_table, hentry, Option.map_some]⟩
  exact Option.some.inj ((hlaw fd q hq).symm.trans hentry)

/-- **Two contexts for one descriptor.** Two threads call `get(5, true)`, both miss, and both create.
The first then has an object that the table has lost: a timeout set through it is not seen by a
later `get`. -/
theorem two_contexts :
    ∃ s, Reach Users.step Free {} s ∧ s.returned 5 = [1, 1, 0] ∧ s.objs.entry 5 = some 1 ∧
      (s.objs.heap 0).recvTimeout = 100 ∧ (s.objs.heap 1).recvTimeout = forever := by
  have h : (run Users.step (fun _ _ => true) {}
      [.get 5 true, .get 5 true, .create 1 { fd := 5 }, .create 0 { fd := 5 },
        .write 0 { fd := 5, recvTimeout := 100 }, .get 5 false]).any (fun s =>
        decide (s.returned 5 = [1, 1, 0] ∧ s.objs.entry 5 = some 1 ∧
          (s.objs.heap 0).recvTimeout = 100 ∧ (s.objs.heap 1).recvTimeout = forever)) = true := by
    decide +kernel
  obtain ⟨s, hr, hs⟩ := exists_reach_of_run (G := Free) (fun _ _ _ => trivial) h
  exact ⟨s, hr, of_decide_eq_true hs⟩

end Law

end Eva01.Hook
