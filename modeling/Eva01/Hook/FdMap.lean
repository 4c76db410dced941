import Eva01.Hook.FdManager
import Eva01.Lib.Runs

/-!
`FdManager` as a map from descriptors to contexts.

What `get` and `del` are for is said by a map (`FdMap`): to look up a descriptor, to make a context
for one that has none, and to take it away. The table behaves as the map through a sequence of calls
if every call accesses it in range and returns what the map returns, and `get(fd, false)` shows the
map after each (`Behaves`).

A descriptor that is negative passes the test of the size and is an index out of range; only `get`
tests for -1. And a table that grows to 2³¹ entries has a negative size as an `int`: every
descriptor is then beyond it. These are the only ways to leave the map (`behaves_iff_fit`).
-/

namespace Eva01.Hook

open Eva01.Lib Eva01.Lib.Runs

/-- A call, by any `int`; a new context is what `new FdCtx(fd)` makes. -/
inductive MapCall
  /-- `get(fd, false)` -/
  | get (fd : Vec.CInt)
  /-- `get(fd, true)` -/
  | getCreate (fd : Vec.CInt) (c : FdCtx)
  | del (fd : Vec.CInt)

namespace FdManager

/-- `get(fd, true)` -/
def getCreate (m : FdManager) (fd : ℤ) (c : FdCtx) : Except Fail (Option FdCtx × FdManager) :=
  if fd = -1 then .ok (none, m)
  else
    match m.get fd with
    | .error e => .error e
    | .ok (some c') => .ok (some c', m)
    | .ok none => (m.store fd c).map fun m' => (some c, m')

/-- A call: what it returns, and the table. -/
def perform (m : FdManager) : MapCall → Except Fail (Option FdCtx × FdManager)
  | .get fd => (m.get fd.1).map fun c => (c, m)
  | .getCreate fd c => m.getCreate fd.1 c
  | .del fd => (m.del fd.1).map fun m' => (none, m')

end FdManager

/-! ### The map -/

/-- The descriptors that have been inserted since they were last taken away, with their contexts. -/
abbrev FdMap : Type := ℤ → Option FdCtx

namespace FdMap

def empty : FdMap := fun _ => none

/-- What a call returns, and the map behind it. There is no context for -1. -/
def perform (f : FdMap) : MapCall → Option FdCtx × FdMap
  | .get fd => (f fd.1, f)
  | .getCreate fd c =>
      if fd.1 = -1 then (none, f)
      else
        match f fd.1 with
        | some c' => (some c', f)
        | none => (some c, Function.update f fd.1 (some c))
  | .del fd => (none, Function.update f fd.1 none)

end FdMap

/-- `get(fd, false)` returns what the map has. -/
def Shows (m : FdManager) (f : FdMap) : Prop :=
  ∀ fd : ℤ, -1 ≤ fd → fd < 2 ^ 31 → m.get fd = .ok (f fd)

/-- One call is in range, returns what the map returns, and leaves the table showing the map. -/
def BehavesOnce (m : FdManager) (f : FdMap) (call : MapCall) (m' : FdManager) : Prop :=
  m.perform call = .ok ((f.perform call).1, m') ∧ Shows m' (f.perform call).2

/-- The table behaves as the map through a sequence of calls. -/
def Behaves (m : FdManager) (f : FdMap) : List MapCall → Prop
  | [] => Shows m f
  | call :: calls =>
      Shows m f ∧ ∃ m', BehavesOnce m f call m' ∧ Behaves m' (f.perform call).2 calls

/-- The descriptor is in range, and the table does not have to grow to a size that is no `int`. -/
def MapCall.Fits (m : FdManager) : MapCall → Prop
  | .get fd => -1 ≤ fd.1
  | .getCreate fd _ => -1 ≤ fd.1 ∧ (m.size ≤ fd.1 → fd.1.toNat * 3 / 2 < 2 ^ 31)
  | .del fd => 0 ≤ fd.1

/-- Each of the calls fits the table it finds. -/
def Fit (m : FdManager) : List MapCall → Prop
  | [] => True
  | call :: calls => call.Fits m ∧ ∀ r m', m.perform call = .ok (r, m') → Fit m' calls

/-! ### One call -/

namespace FdManager

variable {m m' : FdManager} {f : FdMap} {fd : ℤ} {c : FdCtx} {call : MapCall}

lemma Sized.shows_iff (h : m.Sized) :
    Shows m f ↔ ∀ fd, -1 ≤ fd → fd < 2 ^ 31 → m.entry fd = f fd := by
  constructor
  · intro hf fd hlow hhigh
    have := hf fd hlow hhigh
    rw [get_eq_entry hlow h.2] at this
    exact Except.ok.inj this
  · intro hf fd hlow hhigh
    rw [get_eq_entry hlow h.2, hf fd hlow hhigh]

/-- A table that shows the map but for one descriptor, which has its new entry. -/
lemma Sized.shows_update (h : m.Sized) (hf : Shows m f) (h' : m'.Sized) {e : Option FdCtx}
    (hself : m'.entry fd = e) (hother : ∀ fd' ≠ fd, m'.entry fd' = m.entry fd') :
    Shows m' (Function.update f fd e) := by
  rw [h'.shows_iff]
  intro fd' hlow hhigh
  by_cases hfd : fd' = fd
  · rw [hfd, Function.update_self, hself]
  · rw [Function.update_of_ne hfd, hother fd' hfd]
    exact h.shows_iff.1 hf fd' hlow hhigh

lemma Sized.lt_size (h : m.Sized) (hfd : fd < 0) : ¬m.size ≤ fd := by
  have hsize : m.size = m.datas.length := Vec.toInt_of_lt h.2
  omega

lemma Sized.get_neg (h : m.Sized) (hfd : fd < -1) : m.get fd = .error .outOfRange := by
  rw [FdManager.get, if_neg (by omega), if_neg (h.lt_size (by omega)), slot, if_pos (by omega)]

lemma Sized.del_neg (h : m.Sized) (hfd : fd < 0) : m.del fd = .error .outOfRange := by
  rw [FdManager.del, if_neg (h.lt_size hfd), if_pos hfd]

/-- A table that has grown beyond an `int` shows nothing for the descriptor it has grown for. -/
lemma get_of_large (hfd : 0 ≤ fd) (hhigh : fd < 2 ^ 31) (hle : m.size ≤ fd)
    (hlarge : 2 ^ 31 ≤ fd.toNat * 3 / 2) (h : m.store fd c = .ok m') : m'.get fd = .ok none := by
  unfold store at h
  split at h
  · cases h
    have hneg : size { datas := (m.grow fd).set fd.toNat (some c) } < 0 := by
      unfold size grow
      rw [if_pos hle, List.length_set, Vec.length_resize]
      exact Vec.toInt_neg hlarge (by omega)
    rw [get_of_nonneg hfd, if_pos (by omega)]
  · cases h

lemma Sized.behavesOnce (h : m.Sized) (hf : Shows m f) (hfits : call.Fits m) :
    ∃ m', m'.Sized ∧ BehavesOnce m f call m' := by
  unfold BehavesOnce
  cases call with
  | get fd =>
    refine ⟨m, h, ?_, hf⟩
    rw [perform, hf fd.1 hfits fd.2.2]
    rfl
  | getCreate fd c =>
    obtain ⟨hlow, hroom⟩ := hfits
    simp only [perform, FdMap.perform, getCreate]
    by_cases hminus : fd.1 = -1
    · simp only [if_pos hminus]
      exact ⟨m, h, rfl, hf⟩
    · simp only [if_neg hminus, hf fd.1 hlow fd.2.2]
      cases hentry : f fd.1 with
      | some c' => exact ⟨m, h, rfl, hf⟩
      | none =>
        obtain ⟨m', hstore, hsized, hself, hother⟩ := h.store (c := c) (by omega) hroom
        refine ⟨m', hsized, ?_, h.shows_update hf hsized hself hother⟩
        rw [hstore]
        rfl
  | del fd =>
    obtain ⟨m', hdel, hsized, hself, hother⟩ := h.del hfits
    refine ⟨m', hsized, ?_, h.shows_update hf hsized hself hother⟩
    rw [perform, hdel]
    rfl

lemma Sized.fits (h : m.Sized) (hf : Shows m f) (hcall : BehavesOnce m f call m') :
    call.Fits m := by
  obtain ⟨hperform, hshows⟩ := hcall
  cases call with
  | get fd =>
    by_contra hlow
    rw [perform, h.get_neg (not_le.1 hlow)] at hperform
    cases hperform
  | getCreate fd c =>
    have hlow : -1 ≤ fd.1 := by
      by_contra hlow
      rw [perform, getCreate, if_neg (by omega), h.get_neg (not_le.1 hlow)] at hperform
      cases hperform
    refine ⟨hlow, fun hle => ?_⟩
    by_contra hlarge
    have hnonneg : 0 ≤ fd.1 := by
      by_contra hneg
      exact h.lt_size (not_le.1 hneg) hle
    -- beyond the size there is no context, so one is made; and then it is not shown
    have hget : m.get fd.1 = .ok none := by rw [get_of_nonneg hnonneg, if_pos hle]
    have hnone : f fd.1 = none := by
      have := hf fd.1 hlow fd.2.2
      rw [hget] at this
      exact (Except.ok.inj this).symm
    have hminus : fd.1 ≠ -1 := by omega
    rw [perform, getCreate, if_neg hminus, hget] at hperform
    obtain ⟨m₁, hstore, heq⟩ := map_eq_ok.1 hperform
    obtain rfl : m₁ = m' := congrArg Prod.snd heq
    have hshown := hshows fd.1 hlow fd.2.2
    rw [get_of_large hnonneg fd.2.2 hle (Nat.not_lt.1 hlarge) hstore] at hshown
    simp [FdMap.perform, if_neg hminus, hnone] at hshown
  | del fd =>
    by_contra hneg
    rw [perform, h.del_neg (not_le.1 hneg)] at hperform
    cases hperform

end FdManager

/-! ### Sequences of calls -/

/-- From any table that shows a map: by induction on the calls, with the size an `int` throughout. -/
lemma FdManager.Sized.behaves_iff {m : FdManager} {f : FdMap} (h : m.Sized) (hf : Shows m f)
    (calls : List MapCall) : Behaves m f calls ↔ Fit m calls := by
  induction calls generalizing m f with
  | nil => exact iff_of_true hf trivial
  | cons call calls ih =>
    constructor
    · rintro ⟨-, m', honce, hrest⟩
      have hfits := h.fits hf honce
      refine ⟨hfits, fun r m'' hm'' => ?_⟩
      obtain ⟨m₁, hsized, honce₁⟩ := h.behavesOnce hf hfits
      -- the call has one result
      obtain rfl : m₁ = m' := congrArg Prod.snd (Except.ok.inj (honce₁.1.symm.trans honce.1))
      obtain rfl : m₁ = m'' := congrArg Prod.snd (Except.ok.inj (honce.1.symm.trans hm''))
      exact (ih hsized honce.2).1 hrest
    · rintro ⟨hfits, hrest⟩
      obtain ⟨m', hsized, honce⟩ := h.behavesOnce hf hfits
      exact ⟨hf, m', honce, (ih hsized honce.2).2 (hrest _ m' honce.1)⟩

/-- **The table is a map exactly as long as the calls fit.** For every sequence of calls on a new
table: no access is out of range, every call returns what the map returns, and `get(fd, false)`
shows the map throughout, if and only if no call but `get` has a negative descriptor, `get` has none
but -1, and none makes the table grow to 2³¹ entries or more. -/
theorem behaves_iff_fit (calls : List MapCall) : Behaves {} FdMap.empty calls ↔ Fit {} calls := by
  have hshows : Shows {} FdMap.empty :=
    FdManager.sized_constructed.shows_iff.2 fun fd _ _ => FdManager.entry_constructed
  exact FdManager.sized_constructed.behaves_iff hshows calls

/-- **Calls that do not fit**: a descriptor below -1, -1 for `del`, and one for which the table grows
beyond an `int`, whose context is not found again. -/
theorem map_not_kept :
    ({} : FdManager).get (-2) = .error .outOfRange ∧
    ({} : FdManager).del (-1) = .error .outOfRange ∧
    ∃ m, ({} : FdManager).getCreate 1500000000 { fd := 1500000000 } =
        .ok (some { fd := 1500000000 }, m) ∧ m.get 1500000000 = .ok none := by
  have hsized := FdManager.sized_constructed
  have hle : ({} : FdManager).size ≤ 1500000000 := by
    rw [FdManager.size, Vec.toInt_of_lt hsized.2]
    decide
  have hget : ({} : FdManager).get 1500000000 = .ok none := by
    rw [FdManager.get_of_nonneg (by decide), if_pos hle]
  obtain ⟨m, hm⟩ : ∃ m, ({} : FdManager).store 1500000000 { fd := 1500000000 } = .ok m :=
    (FdManager.store_isOk (by decide)).2 fun _ => by decide
  refine ⟨hsized.get_neg (by decide), hsized.del_neg (by decide), m, ?_, ?_⟩
  · rw [FdManager.getCreate, if_neg (by decide), hget, hm]
    rfl
  · exact FdManager.get_of_large (by decide) (by decide) hle (by decide) hm

end Eva01.Hook
