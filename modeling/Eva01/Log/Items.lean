import Eva01.Lib.CString
import Eva01.Log.Formatter
import Mathlib

/-!
What the items of a formatter print of a log event.

Most items print a field of the event. `DateLogItem` prints what `strftime` makes of the time, which
is outside, through a buffer of 64 characters. `FileLogItem` prints the path behind as many slashes
as its sub-format says: it goes on in the path until it has seen them, or is at a newline. The loop
should stop at the end of the path and tests for `'\n'` instead, so it stays inside the string
only if the slashes are there, or a newline is (`file_inside_iff`).

Strings are lists of characters; the path of an event is a string of C (`CString`).
-/

namespace Eva01.Log

open Eva01.Lib

/-! ### Events -/

/-- `LogLevel::Level` -/
inductive Level
  | unknow
  | debug
  | info
  | warn
  | error
  | fatal
  deriving DecidableEq, Repr

namespace Level

/-- The number of a level. -/
def toNat : Level → ℕ
  | .unknow => 0
  | .debug => 1
  | .info => 2
  | .warn => 3
  | .error => 4
  | .fatal => 5

/-- `LogLevel::toString` -/
def toString : Level → List Char
  | .unknow => ['U', 'N', 'K', 'N', 'O', 'W']
  | .debug => ['D', 'E', 'B', 'U', 'G']
  | .info => ['I', 'N', 'F', 'O']
  | .warn => ['W', 'A', 'R', 'N']
  | .error => ['E', 'R', 'R', 'O', 'R']
  | .fatal => ['F', 'A', 'T', 'A', 'L']

end Level

structure LogEvent where
  file : CString
  line : ℤ
  time : ℕ
  level : Level
  threadId : ℕ
  fiberId : ℕ
  threadName : List Char
  /-- What has been written to `m_ss`. -/
  message : List Char
  /-- The name of `m_logger`. -/
  loggerName : List Char

/-- What leaves the defined behaviour of the program. -/
inductive Fail
  /-- A read beyond the NUL of a string. -/
  | beyond
  /-- `--depth` for the least `int`. -/
  | overflow
  /-- `strftime` has no room in its buffer, which is printed all the same. -/
  | noRoom
  /-- A call through a null `m_formatter`. -/
  | noFormatter
  deriving DecidableEq, Repr

/-! ### Items -/

namespace FileLogItem

/-- `while (*it != '\n' && depth != 0)`: from what is at `it` to what is there in the end. -/
def skip : List Char → ℤ → Except Fail (List Char)
  | [], _ => .error .beyond
  | c :: cs, depth =>
      if c ≠ '\n' ∧ depth ≠ 0 then
        if c = '/' then
          if depth = -2 ^ 31 then .error .overflow else skip cs (depth - 1)
        else skip cs depth
      else .ok (c :: cs)

def format (pattern : List Char) (file : CString) : Except Fail (List Char) :=
  (skip file.memory (atoi pattern)).map CString.read

end FileLogItem

namespace DateLogItem

/-- `m_pattern`, as the constructor sets it. -/
def pattern (fmt : List Char) : List Char :=
  if fmt.isEmpty then
    ['%', 'Y', '-', '%', 'm', '-', '%', 'd', ' ', '%', 'H', ':', '%', 'M', ':', '%', 'S']
  else fmt

/-- `strftime` gives the text for the local time; `char buf[64]` takes it with its NUL. -/
def format (strftime : List Char → ℕ → List Char) (fmt : List Char) (time : ℕ) :
    Except Fail (List Char) :=
  let text := strftime (CString.read (pattern fmt)) time
  if text.length < 64 then .ok (CString.read text) else .error .noRoom

end DateLogItem

/-- `LogFormatter::Item::format`, for each class of items. -/
def Item.format (strftime : List Char → ℕ → List Char) (i : Item) (event : LogEvent) :
    Except Fail (List Char) :=
  match i.type with
  | .message => .ok event.message
  | .level => .ok event.level.toString
  | .name => .ok event.loggerName
  | .threadId => .ok (Nat.repr event.threadId).toList
  | .newLine => .ok ['\n']
  | .file => FileLogItem.format i.pattern event.file
  | .line => .ok (Int.repr event.line).toList
  | .tab => .ok ['\t']
  | .date => DateLogItem.format strftime i.pattern event.time
  | .threadName => .ok event.threadName
  | .fiberId => .ok (Nat.repr event.fiberId).toList
  | .string => .ok i.pattern

/-! ### Paths -/

/-- `t` is what comes behind the slash number `d` of `p`. -/
def AfterSlash (d : ℕ) (p t : List Char) : Prop :=
  ∃ q, p = q ++ t ∧ q.count '/' = d ∧ (q = [] ∨ q.getLast? = some '/')

/-- The slashes of a path, up to the first newline. -/
def slashes (p : List Char) : ℕ := (p.takeWhile (· ≠ '\n')).count '/'

/-- The loop finds its slashes, or a newline before `depth` overflows. -/
def Stops (d : ℤ) (p : List Char) : Prop :=
  (0 ≤ d ∧ d ≤ slashes p) ∨ ('\n' ∈ p ∧ (d < 0 → slashes p ≤ 2 ^ 31 + d))

/-- There are more slashes than `depth` can count down by. -/
def Overflows (d : ℤ) (p : List Char) : Prop := d < 0 ∧ 2 ^ 31 + d < slashes p

/-- There is neither a newline nor the last of the slashes. -/
def RunsOff (d : ℤ) (p : List Char) : Prop :=
  '\n' ∉ p ∧ (slashes p < d ∨ d < 0 ∧ slashes p ≤ 2 ^ 31 + d)

lemma stops_or (d : ℤ) (p : List Char) : Stops d p ∨ Overflows d p ∨ RunsOff d p := by
  unfold Stops Overflows RunsOff
  by_cases hp : '\n' ∈ p
  · simp only [hp, true_and, not_true_eq_false, false_and, or_false]
    omega
  · simp only [hp, false_and, or_false, not_false_eq_true, true_and]
    omega

section Slashes

variable {p q r : List Char}

lemma slashes_append (h : '\n' ∉ q) : slashes (q ++ r) = q.count '/' + slashes r := by
  unfold slashes
  rw [List.takeWhile_append_of_pos, List.count_append]
  intro c hc
  have hne : c ≠ '\n' := by
    rintro rfl
    exact h hc
  simpa using hne

lemma slashes_newline : slashes ('\n' :: r) = 0 := by simp [slashes]

lemma slashes_of_not_mem (h : '\n' ∉ p) : slashes p = p.count '/' := by
  simpa [slashes] using slashes_append (r := []) h

end Slashes

namespace FileLogItem

variable {q r p : List Char} {d : ℤ} {c : Char}

lemma skip_other (hc : c ≠ '\n') (hs : c ≠ '/') (hd : d ≠ 0) : skip (c :: r) d = skip r d := by
  simp [skip, hc, hs, hd]

lemma skip_slash (hd : d ≠ 0) (hmin : d ≠ -2 ^ 31) : skip ('/' :: r) d = skip r (d - 1) := by
  rw [skip, if_pos ⟨by decide, hd⟩, if_pos rfl, if_neg hmin]

lemma skip_zero (h : r ≠ []) : skip r 0 = .ok r := by
  obtain ⟨c, cs, rfl⟩ := List.exists_cons_of_ne_nil h
  simp [skip]

lemma skip_newline : skip ('\n' :: r) d = .ok ('\n' :: r) := by simp [skip]

/-- Where `depth` cannot get to 0 the loop goes over everything up to a newline. -/
lemma skip_append (hq : '\n' ∉ q) (h : q.count '/' < d ∨ d < 0 ∧ q.count '/' ≤ 2 ^ 31 + d) :
    skip (q ++ r) d = skip r (d - q.count '/') := by
  induction q generalizing d with
  | nil => simp
  | cons c cs ih =>
    obtain ⟨hc, hcs⟩ : '\n' ≠ c ∧ '\n' ∉ cs := by simpa using hq
    by_cases hslash : c = '/'
    · subst hslash
      rw [List.count_cons_self] at h ⊢
      rw [List.cons_append, skip_slash (by omega) (by omega), ih hcs (by omega)]
      congr 1
      omega
    · rw [List.count_cons_of_ne hslash] at h ⊢
      rw [List.cons_append, skip_other hc.symm hslash (by omega), ih hcs h]

lemma skip_overflow (hq : '\n' ∉ q) (hmin : -2 ^ 31 ≤ d) (hd : d < 0)
    (h : 2 ^ 31 + d < q.count '/') : skip (q ++ r) d = .error .overflow := by
  induction q generalizing d with
  | nil =>
    simp only [List.count_nil] at h
    omega
  | cons c cs ih =>
    obtain ⟨hc, hcs⟩ : '\n' ≠ c ∧ '\n' ∉ cs := by simpa using hq
    by_cases hslash : c = '/'
    · subst hslash
      rw [List.count_cons_self] at h
      by_cases hleast : d = -2 ^ 31
      · simp [skip, hleast]
      · rw [List.cons_append, skip_slash (by omega) hleast]
        exact ih hcs (by omega) (by omega) (by omega)
    · rw [List.count_cons_of_ne hslash] at h
      rw [List.cons_append, skip_other hc.symm hslash (by omega)]
      exact ih hcs hmin hd h

/-- **The loop finds its slashes**: it stops behind the last of them. -/
lemma skip_found (hr : r ≠ []) {n : ℕ} (h : n ≤ slashes p) :
    ∃ t, AfterSlash n p t ∧ skip (p ++ r) n = .ok (t ++ r) := by
  induction p generalizing n with
  | nil =>
    obtain rfl : n = 0 := by simpa [slashes] using h
    exact ⟨[], ⟨[], rfl, rfl, .inl rfl⟩, skip_zero hr⟩
  | cons c cs ih =>
    cases n with
    | zero => exact ⟨c :: cs, ⟨[], rfl, rfl, .inl rfl⟩, skip_zero (by simp)⟩
    | succ n =>
      by_cases hc : c = '\n'
      · simp [slashes, hc] at h
      by_cases hslash : c = '/'
      · subst hslash
        have hn : n ≤ slashes cs := by simpa [slashes] using h
        obtain ⟨t, ⟨q, rfl, hcount, hlast⟩, hskip⟩ := ih hn
        refine ⟨t, ⟨'/' :: q, rfl, by rw [List.count_cons_self, hcount], .inr ?_⟩, ?_⟩
        · rcases hlast with rfl | hlast
          · rfl
          · rw [List.getLast?_cons, hlast]
            rfl
        · rw [List.cons_append, skip_slash (by omega) (by omega), Nat.cast_succ,
            Int.add_sub_cancel, hskip]
      · have hn : n + 1 ≤ slashes cs := by simpa [slashes, hc, hslash] using h
        obtain ⟨t, ⟨q, rfl, hcount, hlast⟩, hskip⟩ := ih hn
        refine ⟨t, ⟨c :: q, rfl, by rw [List.count_cons_of_ne hslash, hcount], .inr ?_⟩, ?_⟩
        · rcases hlast with rfl | hlast
          · simp at hcount
          · rw [List.getLast?_cons, hlast]
            rfl
        · rw [List.cons_append, skip_other hc hslash (by omega), hskip]

lemma skip_stops (h : Stops d p) : ∃ t, skip (p ++ [nul]) d = .ok t := by
  by_cases hfound : 0 ≤ d ∧ d ≤ slashes p
  · obtain ⟨n, rfl⟩ := Int.eq_ofNat_of_zero_le hfound.1
    obtain ⟨t, -, ht⟩ := skip_found (r := [nul]) (by simp) (by omega : n ≤ slashes p)
    exact ⟨_, ht⟩
  · obtain ⟨hmem, hd⟩ := h.resolve_left hfound
    -- the path up to its first newline
    obtain ⟨q, r, rfl, hq⟩ := List.eq_append_cons_of_mem hmem
    rw [slashes_append hq, slashes_newline] at hfound hd
    refine ⟨'\n' :: (r ++ [nul]), ?_⟩
    rw [List.append_assoc, skip_append hq (by omega), List.cons_append, skip_newline]

lemma skip_overflows (hmin : -2 ^ 31 ≤ d) (h : Overflows d p) :
    skip (p ++ [nul]) d = .error .overflow := by
  by_cases hp : '\n' ∈ p
  · obtain ⟨q, r, rfl, hq⟩ := List.eq_append_cons_of_mem hp
    rw [Overflows, slashes_append hq, slashes_newline] at h
    rw [List.append_assoc]
    exact skip_overflow hq hmin h.1 h.2
  · rw [Overflows, slashes_of_not_mem hp] at h
    exact skip_overflow hp hmin h.1 h.2

lemma skip_runsOff (h : RunsOff d p) : skip (p ++ [nul]) d = .error .beyond := by
  obtain ⟨hp, hd⟩ := h
  rw [slashes_of_not_mem hp] at hd
  rw [skip_append hp hd, skip_other (by decide) (by decide) (by omega)]
  rfl

end FileLogItem

/-- **The file item stays inside the path exactly if it finds its slashes or a newline.** With fewer
slashes than the sub-format asks for, or a negative depth, the loop reads beyond the NUL. Where the
slashes are there it prints the path behind the last of them. -/
theorem file_inside_iff (pattern : List Char) (file : CString) :
    ((∃ t, FileLogItem.format pattern file = .ok t) ↔ Stops (atoi pattern) file.chars) ∧
    (FileLogItem.format pattern file = .error .beyond ↔ RunsOff (atoi pattern) file.chars) ∧
    ('\n' ∉ file.chars → 0 ≤ atoi pattern → atoi pattern ≤ file.chars.count '/' →
      ∃ t, FileLogItem.format pattern file = .ok t ∧
        AfterSlash (atoi pattern).toNat file.chars t) := by
  have hmin := le_atoi pattern
  unfold FileLogItem.format CString.memory
  generalize atoi pattern = d at hmin ⊢
  refine ⟨⟨?_, ?_⟩, ⟨?_, ?_⟩, ?_⟩
  · rintro ⟨t, ht⟩
    rcases stops_or d file.chars with h | h | h
    · exact h
    · rw [FileLogItem.skip_overflows hmin h] at ht
      cases ht
    · rw [FileLogItem.skip_runsOff h] at ht
      cases ht
  · intro h
    obtain ⟨t, ht⟩ := FileLogItem.skip_stops h
    exact ⟨CString.read t, by rw [ht]; rfl⟩
  · intro hbeyond
    rcases stops_or d file.chars with h | h | h
    · obtain ⟨t, ht⟩ := FileLogItem.skip_stops h
      rw [ht] at hbeyond
      cases hbeyond
    · rw [FileLogItem.skip_overflows hmin h] at hbeyond
      cases hbeyond
    · exact h
  · intro h
    rw [FileLogItem.skip_runsOff h]
    rfl
  · intro hline hd hle
    obtain ⟨n, rfl⟩ := Int.eq_ofNat_of_zero_le hd
    have hn : n ≤ slashes file.chars := by
      rw [slashes_of_not_mem hline]
      omega
    obtain ⟨t, hafter, ht⟩ := FileLogItem.skip_found (r := [nul]) (by simp) hn
    refine ⟨t, ?_, hafter⟩
    have hnul : nul ∉ t := by
      obtain ⟨q, hq, -⟩ := hafter
      exact fun hmem => file.noNul (hq ▸ List.mem_append_right q hmem)
    rw [ht]
    exact congrArg Except.ok (CString.read_append hnul)

/-- `src/log.cpp` -/
def shortPath : CString where
  chars := ['s', 'r', 'c', '/', 'l', 'o', 'g', '.', 'c', 'p', 'p']
  noNul := by decide

/-- **The default pattern has `%f{5}`**, and reads beyond a path with one slash; `%f{1}` does not. -/
theorem short_path_beyond :
    FileLogItem.format ['5'] shortPath = .error .beyond ∧
    FileLogItem.format ['1'] shortPath = .ok ['l', 'o', 'g', '.', 'c', 'p', 'p'] := by
  decide +kernel

end Eva01.Log
