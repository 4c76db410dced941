import Mathlib

/-!
Strings of C: characters up to a NUL, and the number that `atoi` reads from one.

A pointer into a string is what the memory holds from there on, as far as the string reaches: the
rest of its characters and the NUL. Where that list is empty there is nothing that may be read.
-/

namespace Eva01.Lib

def nul : Char := '\x00'

/-- A string that ends with a NUL. -/
structure CString where
  chars : List Char
  noNul : nul ∉ chars

namespace CString

/-- What may be read at the address of the string. -/
def memory (s : CString) : List Char := s.chars ++ [nul]

/-- The string that starts at an address. -/
def read (mem : List Char) : List Char := mem.takeWhile (· ≠ nul)

theorem read_append {l : List Char} (h : nul ∉ l) : CString.read (l ++ [nul]) = l := by
  unfold CString.read
  rw [List.takeWhile_append_of_pos]
  · simp
  · intro c hc
    have hne : c ≠ nul := by
      rintro rfl
      exact h hc
    simpa using hne

end CString

/-! ### Numbers -/

/-- `isspace` -/
def isSpace (c : Char) : Bool := c ∈ [' ', '\t', '\n', '\x0b', '\x0c', '\r']

/-- The digits at the start of a string, behind others that make `n`. -/
def decimal (n : ℕ) : List Char → ℕ
  | [] => n
  | c :: cs => if c.isDigit then decimal (n * 10 + (c.toNat - 48)) cs else n

/-- The number at the start of a string, behind white space. -/
def number (s : List Char) : ℤ :=
  match s.dropWhile isSpace with
  | '-' :: cs => -(decimal 0 cs : ℤ)
  | '+' :: cs => decimal 0 cs
  | cs => decimal 0 cs

/-- `strtol(s, NULL, 10)`: what does not fit a `long` is the nearest that does. -/
def strtol (s : List Char) : ℤ := max (-2 ^ 63) (min (2 ^ 63 - 1) (number s))

/-- `(int)strtol(s, NULL, 10)` -/
@[irreducible] def atoi (s : List Char) : ℤ :=
  if -2 ^ 31 ≤ strtol s ∧ strtol s < 2 ^ 31 then strtol s else Int.bmod (strtol s) (2 ^ 32)

theorem le_atoi (s : List Char) : -2 ^ 31 ≤ atoi s := by
  unfold atoi
  split
  · rename_i h
    exact h.1
  · have := Int.le_bmod (x := strtol s) (m := 2 ^ 32) (by norm_num)
    omega

end Eva01.Lib
