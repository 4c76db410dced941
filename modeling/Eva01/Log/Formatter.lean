import Mathlib

/-!
`LogFormatter::initItems`: the pattern of a formatter, read into its items.

The outer loop goes over the pattern with a flag for a `%` that has been read; behind a key that is
followed by `{` an inner loop goes on with the same iterator up to the next `}`. An iterator is the
part of the pattern from it on, and the two loops are two functions that call each other
(`scan`, `scanFmt`). A character stands for a `char`; strings are lists of them.

A pattern is meant to be a list of pieces, literal characters and keys with a sub-format, written
one after the other (`Renders`). From every such pattern the loop makes exactly these pieces
(`items_of_rendering`). One piece is a unit that can be read at the start of any pattern, well formed
or not behind it (`Reads`). The invariant is that behind a unit the flag is off.
-/

namespace Eva01.Log

/-! ### Items -/

/-- The classes derived from `LogFormatter::Item`. -/
inductive ItemType
  | message
  | level
  | name
  | threadId
  | newLine
  | file
  | line
  | tab
  | date
  | threadName
  | fiberId
  | string
  deriving DecidableEq, Repr

/-- An item: its class, and the text its constructor was called with. -/
structure Item where
  type : ItemType
  pattern : List Char
  deriving DecidableEq, Repr

/-- `LogFormatter::FORMATS` -/
def formats : Char → Option ItemType
  | 'm' => some .message
  | 'p' => some .level
  | 'c' => some .name
  | 't' => some .threadId
  | 'n' => some .newLine
  | 'f' => some .file
  | 'l' => some .line
  | 'T' => some .tab
  | 'd' => some .date
  | 'N' => some .threadName
  | 'F' => some .fiberId
  | _ => none

/-! ### `initItems` -/

/-- `m_items`, and the lines printed to `std::cout`. -/
structure Parsed where
  items : List Item := []
  printed : List (List Char) := []
  deriving DecidableEq, Repr

namespace Parsed

/-- `m_items.push_back` -/
def push (s : Parsed) (i : Item) : Parsed := { s with items := s.items ++ [i] }

def print (s : Parsed) (line : String) : Parsed := { s with printed := s.printed ++ [line.toList] }

end Parsed

mutual

/-- The outer loop, from an iterator on, with `found`. -/
def scan (s : Parsed) (found : Bool) : List Char → Parsed
  | [] => s
  | c :: cs =>
      if c = '%' then
        if found then s.print ("parse_error: " ++ String.singleton c)
        else scan s true cs
      else if found then
        match formats c with
        | some type =>
            if cs.head? = some '{' then scanBraced s type cs
            else scan (s.push ⟨type, []⟩) false cs
        | none => s.print ("parse_error: invalid item" ++ String.singleton c)
      else scan (s.push ⟨.string, [c]⟩) false cs

/-- The start of the inner loop, one character on from `{`. -/
def scanBraced (s : Parsed) (type : ItemType) : List Char → Parsed
  | [] => s
  | _ :: rest => scanFmt s type [] rest

/-- The inner loop, with what has been written to `fmt`. -/
def scanFmt (s : Parsed) (type : ItemType) (fmt : List Char) : List Char → Parsed
  -- `fmt.clear()` resets the error state of the stream and leaves its text
  | [] => (s.print "parse_error: open \x7b\x7d").push ⟨type, fmt⟩
  | c :: cs =>
      if c = '}' then scan (s.push ⟨type, fmt⟩) false cs
      else scanFmt s type (fmt ++ [c]) cs

end

def initItems (pattern : List Char) : Parsed := scan {} false pattern

/-! ### Pieces -/

/-- A piece of a pattern: a character that is not `%`, or a key with a sub-format without `}`. -/
inductive Piece
  | literal (c : Char) (h : c ≠ '%')
  | keyed (key : Char) (type : ItemType) (h : formats key = some type) (sub : List Char)
      (hsub : '}' ∉ sub)

/-- The item that a piece stands for. -/
def Piece.item : Piece → Item
  | .literal c _ => ⟨.string, [c]⟩
  | .keyed _ type _ sub _ => ⟨type, sub⟩

/-- `t` is a pattern for the pieces: a literal is written as itself, a key behind `%` with its
sub-format in braces, which may be left out for an empty one unless `{` comes next. -/
inductive Renders : List Piece → List Char → Prop
  | nil : Renders [] []
  | literal {ps : List Piece} {t : List Char} {c : Char} {h : c ≠ '%'} :
      Renders ps t → Renders (.literal c h :: ps) (c :: t)
  | braced {ps : List Piece} {t : List Char} {key : Char} {type : ItemType}
      {h : formats key = some type} {sub : List Char} {hsub : '}' ∉ sub} :
      Renders ps t →
      Renders (.keyed key type h sub hsub :: ps) ('%' :: key :: '{' :: (sub ++ '}' :: t))
  | bare {ps : List Piece} {t : List Char} {key : Char} {type : ItemType}
      {h : formats key = some type} {hsub : '}' ∉ []} :
      Renders ps t → t.head? ≠ some '{' → Renders (.keyed key type h [] hsub :: ps) ('%' :: key :: t)

/-! ### One piece -/

section Scan

variable {s : Parsed} {t : List Char} {c key : Char} {type : ItemType}

lemma key_ne_percent (h : formats key = some type) : key ≠ '%' := by
  rintro rfl
  cases h

lemma scan_literal (h : c ≠ '%') : scan s false (c :: t) = scan (s.push ⟨.string, [c]⟩) false t := by
  simp [scan, h]

lemma scan_percent : scan s false ('%' :: t) = scan s true t := by simp [scan]

lemma scan_key_brace (h : formats key = some type) :
    scan s true (key :: '{' :: t) = scanFmt s type [] t := by
  simp [scan, key_ne_percent h, h, scanBraced]

lemma scan_key_bare (h : formats key = some type) (ht : t.head? ≠ some '{') :
    scan s true (key :: t) = scan (s.push ⟨type, []⟩) false t := by
  simp [scan, key_ne_percent h, h, ht]

lemma scanFmt_closed {sub : List Char} (hsub : '}' ∉ sub) (fmt : List Char) :
    scanFmt s type fmt (sub ++ '}' :: t) = scan (s.push ⟨type, fmt ++ sub⟩) false t := by
  induction sub generalizing fmt with
  | nil => simp [scanFmt]
  | cons d ds ih =>
      obtain ⟨hd, hds⟩ : '}' ≠ d ∧ '}' ∉ ds := by simpa using hsub
      rw [List.cons_append, scanFmt, if_neg hd.symm, ih hds, List.append_assoc, List.singleton_append]

end Scan

/-! ### The units of a pattern -/

/-- The piece is read at the start of a pattern, of which the second part is left. -/
inductive Reads : Piece → List Char → List Char → Prop
  | literal {c : Char} {h : c ≠ '%'} {t : List Char} : Reads (.literal c h) (c :: t) t
  | braced {key : Char} {type : ItemType} {h : formats key = some type} {sub : List Char}
      {hsub : '}' ∉ sub} {t : List Char} :
      Reads (.keyed key type h sub hsub) ('%' :: key :: '{' :: (sub ++ '}' :: t)) t
  | bare {key : Char} {type : ItemType} {h : formats key = some type} {hsub : '}' ∉ []}
      {t : List Char} :
      t.head? ≠ some '{' → Reads (.keyed key type h [] hsub) ('%' :: key :: t) t

/-- The pieces are read one after the other. -/
inductive Units : List Piece → List Char → List Char → Prop
  | nil {t : List Char} : Units [] t t
  | cons {p : Piece} {ps : List Piece} {t t' r : List Char} :
      Reads p t t' → Units ps t' r → Units (p :: ps) t r

section Units

variable {s : Parsed} {p : Piece} {ps : List Piece} {t t' r : List Char}

lemma Renders.units (h : Renders ps t) : Units ps t [] := by
  induction h with
  | nil => exact .nil
  | literal _ ih => exact .cons .literal ih
  | braced _ ih => exact .cons .braced ih
  | bare _ hnext ih => exact .cons (.bare hnext) ih

lemma scan_reads (h : Reads p t t') : scan s false t = scan (s.push p.item) false t' := by
  cases h with
  | @literal c h t => exact scan_literal h
  | @braced key type h sub hsub t =>
    rw [scan_percent, scan_key_brace h, scanFmt_closed hsub]
    rfl
  | @bare key type h hsub t hnext =>
    rw [scan_percent, scan_key_bare h hnext]
    rfl

/-- **The loop reads the units**, and goes on with what is left. -/
lemma scan_units (h : Units ps t r) :
    scan s false t = scan { s with items := s.items ++ ps.map Piece.item } false r := by
  induction h generalizing s with
  | nil => simp
  | cons hread _ ih =>
    rw [scan_reads hread, ih]
    simp [Parsed.push]

end Units

/-- **Round trip.** On every pattern for a list of pieces `initItems` makes exactly the items of the
pieces, in order, and prints nothing. -/
theorem items_of_rendering {ps : List Piece} {t : List Char} (h : Renders ps t) :
    initItems t = { items := ps.map Piece.item, printed := [] } := by
  rw [initItems, scan_units h.units]
  simp [scan]

/-- A sub-format with `%` and `{` in it, a key without braces, and literal braces. -/
def samplePieces : List Piece :=
  [.keyed 'd' .date rfl ['%', 'Y', '{'] (by decide), .literal '{' (by decide),
    .keyed 'T' .tab rfl [] (by decide), .literal '}' (by decide), .keyed 'm' .message rfl [] (by decide)]

/-- The pieces above, with the braces left out where they may be. -/
def samplePattern : List Char :=
  ['%', 'd', '{', '%', 'Y', '{', '}', '{', '%', 'T', '}', '%', 'm']

theorem items_of_sample :
    initItems samplePattern =
      { items := [⟨.date, ['%', 'Y', '{']⟩, ⟨.string, ['{']⟩, ⟨.tab, []⟩, ⟨.string, ['}']⟩,
          ⟨.message, []⟩]
        printed := [] } := by
  have h : Renders samplePieces samplePattern :=
    .braced (.literal (.bare (.literal (.bare .nil (by decide))) (by decide)))
  exact items_of_rendering h

end Eva01.Log
