import Eva01.Log.Formatter

/-!
`LogFormatter::initItems` on patterns that are not well formed.

The loop reads the units of a pattern one by one (`scan_units`). What is left when no unit can be
read is of one of five kinds (`Stuck`): nothing, a last `%`, `%%`, a `%` with a character that is no
key, or a key whose brace is not closed. The loop leaves by another way for each kind.

It is meant to make the items of the units, and for an open brace the item of the key without a
sub-format; and to print an error exactly if the pattern is not made of units. But `fmt.clear()`
leaves the text of the stream, so the item has the text behind the open brace, and a last `%` is
found by nobody (`malformed_iff`).
-/

namespace Eva01.Log

/-! ### The longest prefix -/

/-- The pieces of the longest prefix that is made of units. -/
def Longest (ps : List Piece) (t r : List Char) : Prop :=
  Units ps t r ∧ ∀ ps' r', Units ps' t r' → r.length ≤ r'.length

section Units

variable {p : Piece} {ps qs : List Piece} {t t' r : List Char}

lemma Reads.length_lt (h : Reads p t t') : t'.length < t.length := by
  cases h with
  | literal => simp
  | braced =>
    simp only [List.length_cons, List.length_append]
    omega
  | bare =>
    simp only [List.length_cons]
    omega

lemma Units.append (h : Units ps t t') (h' : Units qs t' r) : Units (ps ++ qs) t r := by
  induction h with
  | nil => exact h'
  | cons hread _ ih => exact .cons hread (ih h')

lemma units_iff_renders : Units ps t [] ↔ Renders ps t := by
  refine ⟨fun h => ?_, Renders.units⟩
  generalize hr : ([] : List Char) = r at h
  induction h with
  | nil =>
    subst hr
    exact .nil
  | cons hread _ ih =>
    cases hread with
    | literal => exact .literal (ih hr)
    | braced => exact .braced (ih hr)
    | bare hnext => exact .bare (ih hr) hnext

lemma exists_longest (t : List Char) : ∃ ps r, Longest ps t r := by
  classical
  have hsome : ∃ n ps r, Units ps t r ∧ r.length = n := ⟨t.length, [], t, .nil, rfl⟩
  obtain ⟨ps, r, hunits, hlength⟩ := Nat.find_spec hsome
  refine ⟨ps, r, hunits, fun ps' r' h' => ?_⟩
  rw [hlength]
  exact Nat.find_min' hsome ⟨ps', r', h', rfl⟩

lemma Longest.eq_nil_iff (h : Longest ps t r) : r = [] ↔ ∃ qs, Renders qs t := by
  constructor
  · rintro rfl
    exact ⟨ps, units_iff_renders.1 h.1⟩
  · rintro ⟨qs, hqs⟩
    exact List.length_eq_zero_iff.1 (Nat.le_zero.1 (h.2 qs [] (units_iff_renders.2 hqs)))

lemma Longest.not_reads (h : Longest ps t r) (p : Piece) (t' : List Char) : ¬Reads p r t' := by
  intro hread
  have hle := h.2 (ps ++ [p]) t' (h.1.append (.cons hread .nil))
  exact absurd hread.length_lt (by omega)

end Units

/-! ### What is left -/

/-- No unit can be read. -/
inductive Stuck : List Char → Prop
  | done : Stuck []
  /-- The pattern ends with `%`. -/
  | percent : Stuck ['%']
  | twice {t : List Char} : Stuck ('%' :: '%' :: t)
  /-- A character that is no key. -/
  | unknown {c : Char} {t : List Char} : c ≠ '%' → formats c = none → Stuck ('%' :: c :: t)
  /-- A brace that is not closed. -/
  | opened {key : Char} {type : ItemType} {u : List Char} : formats key = some type → '}' ∉ u →
      Stuck ('%' :: key :: '{' :: u)

lemma stuck_of_not_reads {r : List Char} (h : ∀ p t', ¬Reads p r t') : Stuck r := by
  cases r with
  | nil => exact .done
  | cons c t =>
    by_cases hc : c = '%'
    · subst hc
      cases t with
      | nil => exact .percent
      | cons key t =>
        by_cases hkey : key = '%'
        · subst hkey
          exact .twice
        · cases htype : formats key with
          | none => exact .unknown hkey htype
          | some type =>
            by_cases hnext : t.head? = some '{'
            · obtain ⟨u, rfl⟩ : ∃ u, t = '{' :: u := by
                cases t with
                | nil => cases hnext
                | cons d u => exact ⟨u, by rw [Option.some.inj hnext]⟩
              by_cases hclosed : '}' ∈ u
              · obtain ⟨sub, t', rfl, hsub⟩ := List.eq_append_cons_of_mem hclosed
                exact absurd .braced (h (.keyed key type htype sub hsub) t')
              · exact .opened htype hclosed
            · exact absurd (.bare hnext) (h (.keyed key type htype [] List.not_mem_nil) t)
    · exact absurd .literal (h (.literal c hc) t)

/-- The key and the text of a brace that is not closed, at the start of what is left. -/
def opened : List Char → Option (ItemType × List Char)
  | '%' :: key :: '{' :: u => if '}' ∈ u then none else (formats key).map fun type => (type, u)
  | _ => none

lemma opened_of_none {c : Char} {t : List Char} (h : formats c = none) :
    opened ('%' :: c :: t) = none := by
  unfold opened
  split
  · rename_i heq
    cases heq
    simp [h]
  · rfl

/-! ### The loop -/

section Scan

variable {s : Parsed} {t : List Char} {c key : Char} {type : ItemType}

lemma scan_last_percent : scan s false ['%'] = s := by simp [scan]

lemma scan_twice : scan s false ('%' :: '%' :: t) = s.print "parse_error: %" := by
  simp only [scan, if_true, if_false, Bool.false_eq_true]
  rfl

lemma scan_unknown (hc : c ≠ '%') (h : formats c = none) :
    scan s false ('%' :: c :: t) =
      s.print ("parse_error: invalid item" ++ String.singleton c) := by
  rw [scan_percent]
  simp [scan, hc, h]

/-- A brace that is not closed: the item has the text behind it. -/
lemma scanFmt_open {u : List Char} (hu : '}' ∉ u) (fmt : List Char) :
    scanFmt s type fmt u = (s.print "parse_error: open \x7b\x7d").push ⟨type, fmt ++ u⟩ := by
  induction u generalizing fmt with
  | nil => simp [scanFmt]
  | cons d ds ih =>
    obtain ⟨hd, hds⟩ : '}' ≠ d ∧ '}' ∉ ds := by simpa using hu
    rw [scanFmt, if_neg hd.symm, ih hds, List.append_assoc, List.singleton_append]

lemma scan_opened {u : List Char} (h : formats key = some type) (hu : '}' ∉ u) :
    scan s false ('%' :: key :: '{' :: u) =
      (s.print "parse_error: open \x7b\x7d").push ⟨type, u⟩ := by
  rw [scan_percent, scan_key_brace h, scanFmt_open hu, List.nil_append]

end Scan

/-! ### The result -/

/-- What is meant: the items of the units and, for an open brace, that of the key with an empty
sub-format; and an error exactly if the pattern is not made of units. -/
def AsMeant (ps : List Piece) (t r : List Char) : Prop :=
  (initItems t).items =
      ps.map Piece.item ++ ((opened r).map fun o => (⟨o.1, []⟩ : Item)).toList ∧
    ((initItems t).printed ≠ [] ↔ ¬∃ qs, Renders qs t)

lemma Longest.asMeant_iff {ps : List Piece} {t r : List Char} (h : Longest ps t r) :
    AsMeant ps t r ↔ (∀ type u, opened r = some (type, u) → u = []) ∧ r ≠ ['%'] := by
  have hscan : initItems t = scan { items := ps.map Piece.item } false r := scan_units h.1
  unfold AsMeant
  rw [hscan, ← h.eq_nil_iff]
  have hstuck : Stuck r := stuck_of_not_reads h.not_reads
  cases hstuck with
  | done => simp [scan, opened]
  | percent =>
    rw [scan_last_percent]
    simp
  | twice =>
    rw [scan_twice, opened_of_none rfl]
    simp [Parsed.print]
  | @unknown c t hc hkey =>
    rw [scan_unknown hc hkey, opened_of_none hkey]
    simp [Parsed.print]
  | @opened key type u hkey hu =>
    rw [scan_opened hkey hu]
    have hsome : opened ('%' :: key :: '{' :: u) = some (type, u) := by simp [opened, hu, hkey]
    simp [Parsed.print, Parsed.push, hsome]

/-- **Malformed patterns are read as they are meant exactly if nothing stands behind an open brace
and the pattern does not end with `%`.** -/
theorem malformed_iff (t : List Char) :
    (∃ ps r, Longest ps t r) ∧
    ∀ ps r, Longest ps t r →
      (AsMeant ps t r ↔ (∀ type u, opened r = some (type, u) → u = []) ∧ r ≠ ['%']) :=
  ⟨exists_longest t, fun _ _ h => h.asMeant_iff⟩

lemma Units.eq_of_opened {ps : List Piece} {key : Char} {u r : List Char} (hu : '}' ∉ u)
    (h : Units ps ('%' :: key :: '{' :: u) r) : r = '%' :: key :: '{' :: u := by
  cases h with
  | nil => rfl
  | cons hread _ =>
    cases hread with
    | literal => contradiction
    | braced => simp at hu
    | bare hnext => simp at hnext

/-- **Two patterns that are not read as meant.** The text behind an open brace is kept, and a last
`%` is not reported. -/
theorem malformed_kept :
    (initItems ['%', 'd', '{', '%', 'Y'] =
        { items := [⟨.date, ['%', 'Y']⟩], printed := ["parse_error: open \x7b\x7d".toList] } ∧
      ∀ ps r, Longest ps ['%', 'd', '{', '%', 'Y'] r → ¬AsMeant ps ['%', 'd', '{', '%', 'Y'] r) ∧
    (initItems ['a', '%'] = { items := [⟨.string, ['a']⟩], printed := [] } ∧
      ∀ ps r, Longest ps ['a', '%'] r → ¬AsMeant ps ['a', '%'] r) := by
  refine ⟨⟨by decide +kernel, fun ps r h hmeant => ?_⟩, by decide +kernel, fun ps r h hmeant => ?_⟩
  · have hr := h.1.eq_of_opened (by decide)
    have hnil := (h.asMeant_iff.1 hmeant).1 .date ['%', 'Y'] (by rw [hr]; rfl)
    cases hnil
  · -- nothing is printed, so the pattern would have to be made of units
    have hprinted : (initItems ['a', '%']).printed = [] := by decide +kernel
    obtain ⟨qs, hqs⟩ := not_not.1 fun hno => hmeant.2.2 hno hprinted
    cases hqs with
    | literal hqs =>
      cases hqs
      contradiction

end Eva01.Log
