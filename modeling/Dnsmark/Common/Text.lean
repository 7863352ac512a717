import Mathlib.Data.List.DropRight
import Mathlib.Data.Nat.Basic
import Mathlib.Tactic.IntervalCases

/-!
# Text

Rust's `str` as a list of characters, with the splitting and the number parsing of its standard library.
A position in a text plays no part in what follows, so the UTF-8 octets behind the characters are left
out.
-/

/-- A `str`, character by character. -/
abbrev Text := List Char

namespace Text

/-- `str::strip_suffix`, with the text itself where it has no such end. -/
def stripLast (c : Char) (s : Text) : Text := if s.getLast? = some c then s.dropLast else s

/-- `str::lines`: a line ends with `\n` or `\r\n`.  What follows the last `\n` is a line if it is not
empty, and keeps a `\r`. -/
def lines (s : Text) : List Text :=
  let parts := s.splitOn '\n'
  parts.dropLast.map (stripLast '\r') ++ parts.getLast?.toList.filter (· ≠ [])

/-- `char::is_whitespace`: the code points with the property `White_Space`. -/
def isWhitespace (c : Char) : Bool :=
  let n := c.toNat
  (0x09 ≤ n && n ≤ 0x0d) || n == 0x20 || n == 0x85 || n == 0xa0 || n == 0x1680
    || (0x2000 ≤ n && n ≤ 0x200a) || n == 0x2028 || n == 0x2029 || n == 0x202f || n == 0x205f
    || n == 0x3000

/-- No letter is whitespace. -/
theorem toUpper_of_isWhitespace {c : Char} (h : isWhitespace c = true) : c.toUpper = c := by
  refine dif_neg fun hlower => ?_
  have hlower : 97 ≤ c.toNat ∧ c.toNat ≤ 122 :=
    ⟨UInt32.le_iff_toNat_le.mp hlower.1, UInt32.le_iff_toNat_le.mp hlower.2⟩
  unfold isWhitespace at h
  simp only [Bool.or_eq_true, Bool.and_eq_true, decide_eq_true_eq, beq_iff_eq] at h
  omega

/-- `str::split_whitespace`. -/
def splitWhitespace (s : Text) : List Text := (s.splitOnP isWhitespace).filter (· ≠ [])

/-- Only a text of whitespace has no words. -/
theorem splitWhitespace_eq_nil_iff (s : Text) :
    splitWhitespace s = [] ↔ ∀ c ∈ s, isWhitespace c = true := by
  unfold splitWhitespace
  induction s with
  | nil => simp
  | cons c s ih =>
    rw [List.splitOnP_cons_eq_if_modifyHead, List.forall_mem_cons]
    by_cases hc : isWhitespace c = true
    · rw [if_pos hc, List.filter_cons_of_neg (by simp), ih]
      exact (and_iff_right hc).symm
    · -- the first part starts with `c`
      obtain ⟨part, parts, hparts⟩ := List.exists_cons_of_ne_nil (List.splitOnP_ne_nil isWhitespace s)
      rw [if_neg hc, hparts, List.modifyHead_cons, List.filter_cons_of_pos (by simp)]
      exact iff_of_false (List.cons_ne_nil _ _) fun h => hc h.1

/-! ### Words and blanks -/

/-- A word of a line. -/
def IsWord (w : Text) : Prop := w ≠ [] ∧ ∀ c ∈ w, isWhitespace c = false

/-- What stands between words. -/
def IsBlank (b : Text) : Prop := ∀ c ∈ b, isWhitespace c = true

-- the search through the text, not one through all characters
instance decidableIsWord (w : Text) : Decidable (IsWord w) :=
  @instDecidableAnd _ _ (inferInstanceAs (Decidable (w ≠ [])))
    (List.decidableBAll (fun c => isWhitespace c = false) w)

instance decidableIsBlank (b : Text) : Decidable (IsBlank b) :=
  List.decidableBAll (fun c => isWhitespace c = true) b

theorem splitWhitespace_blank_append {b : Text} (hb : IsBlank b) (s : Text) :
    splitWhitespace (b ++ s) = splitWhitespace s := by
  induction b with
  | nil => rfl
  | cons c b ih =>
    rw [← ih fun c' hc' => hb c' (List.mem_cons_of_mem c hc'), List.cons_append, splitWhitespace,
      List.splitOnP_cons_eq_if_modifyHead, if_pos (hb c List.mem_cons_self),
      List.filter_cons_of_neg (by simp)]
    rfl

theorem splitWhitespace_append_blank (s : Text) {b : Text} (hb : IsBlank b) :
    splitWhitespace (s ++ b) = splitWhitespace s := by
  cases b with
  | nil => rw [List.append_nil]
  | cons c b =>
    have hrest : splitWhitespace b = [] :=
      (splitWhitespace_eq_nil_iff b).mpr fun c' hc' => hb c' (List.mem_cons_of_mem c hc')
    rw [splitWhitespace] at hrest ⊢
    rw [List.splitOnP_append_cons _ _ (hb c List.mem_cons_self), List.filter_append, hrest,
      List.append_nil]
    rfl

theorem IsWord.splitWhitespace_eq {w : Text} (hw : IsWord w) : splitWhitespace w = [w] := by
  rw [splitWhitespace, List.splitOnP_eq_singleton hw.2, List.filter_cons_of_pos (by simpa using hw.1),
    List.filter_nil]

/-- A word is read off with the rest of the line behind it. -/
theorem IsWord.splitWhitespace_append {w : Text} (hw : IsWord w) {b : Text} (hb : IsBlank b)
    (hne : b ≠ []) (s : Text) : splitWhitespace (w ++ (b ++ s)) = w :: splitWhitespace s := by
  obtain ⟨c, b, rfl⟩ := List.exists_cons_of_ne_nil hne
  have hrest := splitWhitespace_blank_append (fun c' hc' => hb c' (List.mem_cons_of_mem c hc')) s
  rw [List.cons_append, splitWhitespace, List.splitOnP_append_cons _ _ (hb c List.mem_cons_self),
    List.filter_append, ← splitWhitespace, ← splitWhitespace, hrest, hw.splitWhitespace_eq]
  rfl

/-! ### Lines -/

/-- The first character is not the one that is stripped. -/
theorem head?_stripLast_cons {a c : Char} (h : a ≠ c) (s : Text) :
    (stripLast c (a :: s)).head? = some a := by
  unfold stripLast
  split
  · next hlast =>
    cases s with
    | nil => exact absurd (Option.some.inj hlast) h
    | cons b s => rfl
  · rfl

theorem head?_of_stripLast {a c : Char} {s : Text} (h : (stripLast c s).head? = some a) :
    s.head? = some a := by
  unfold stripLast at h
  split at h
  · obtain ⟨last, hlast⟩ := List.dropLast_prefix s
    rw [← hlast, List.head?_append, h]
    rfl
  · exact h

/-- The end that is stripped from a line is no part of a word. -/
theorem splitWhitespace_stripLast {c : Char} (hc : isWhitespace c = true) (s : Text) :
    splitWhitespace (stripLast c s) = splitWhitespace s := by
  unfold stripLast
  split
  · next hlast =>
    obtain ⟨init, rfl⟩ := List.getLast?_eq_some_iff.mp hlast
    rw [List.dropLast_concat, splitWhitespace_append_blank]
    exact List.forall_mem_singleton.mpr hc
  · rfl

/-- A text of terminated lines. -/
theorem lines_terminated {ls : List Text} (h : ∀ l ∈ ls, '\n' ∉ l) :
    lines (ls.flatMap (· ++ ['\n'])) = ls.map (stripLast '\r') := by
  have hsplit : (ls.flatMap (· ++ ['\n'])).splitOn '\n' = ls ++ [[]] := by
    induction ls with
    | nil => rfl
    | cons l ls ih =>
      rw [List.flatMap_cons, List.append_assoc, List.singleton_append, List.splitOn_append_cons_self,
        ih fun l' hl' => h l' (List.mem_cons_of_mem l hl'),
        List.splitOn_eq_singleton (h l List.mem_cons_self)]
      rfl
  rw [lines, hsplit, List.dropLast_concat, List.getLast?_concat]
  simp

/-- `str::trim`. -/
def trim (s : Text) : Text := (s.dropWhile isWhitespace).rdropWhile isWhitespace

theorem trim_eq_self {s : Text} (h : ∀ c ∈ s, ¬ isWhitespace c = true) : trim s = s := by
  have hstart : s.dropWhile isWhitespace = s := by
    cases s with
    | nil => rfl
    | cons c s => exact List.dropWhile_cons_of_neg (h c List.mem_cons_self)
  rw [trim, hstart, List.rdropWhile_eq_self_iff]
  exact fun hne => h _ (List.getLast_mem hne)

/-- A line without other whitespace loses its end. -/
theorem trim_concat {s : Text} (h : ∀ c ∈ s, ¬ isWhitespace c = true) {e : Char}
    (he : isWhitespace e = true) : trim (s ++ [e]) = s := by
  cases s with
  | nil => rw [trim, List.nil_append, List.dropWhile_cons_of_pos he, List.dropWhile_nil, List.rdropWhile_nil]
  | cons c s =>
    rw [trim, List.cons_append, List.dropWhile_cons_of_neg (h c List.mem_cons_self), ← List.cons_append,
      List.rdropWhile_concat_pos _ _ _ he, List.rdropWhile_eq_self_iff]
    exact fun hne => h _ (List.getLast_mem hne)

/-- `str::strip_prefix`. -/
def stripStart : Text → Text → Option Text
  | [], s => some s
  | _ :: _, [] => none
  | p :: start, c :: s => if p = c then stripStart start s else none

/-- `str::split_once`: what stands before the first `sep`, and what behind it. -/
def splitOnce (sep : Char) : Text → Option (Text × Text)
  | [] => none
  | c :: s => if c = sep then some ([], s) else (splitOnce sep s).map fun (a, b) => (c :: a, b)

theorem splitOnce_eq_none {sep : Char} {s : Text} (h : sep ∉ s) : splitOnce sep s = none := by
  induction s with
  | nil => rfl
  | cons c s ih =>
    rw [List.mem_cons, not_or] at h
    rw [splitOnce, if_neg (Ne.symm h.1), ih h.2, Option.map_none]

theorem splitOnce_append {sep : Char} {a : Text} (h : sep ∉ a) (b : Text) :
    splitOnce sep (a ++ sep :: b) = some (a, b) := by
  induction a with
  | nil => exact if_pos rfl
  | cons c a ih =>
    rw [List.mem_cons, not_or] at h
    rw [List.cons_append, splitOnce, if_neg (Ne.symm h.1), ih h.2, Option.map_some]

/-- The characters of a list of texts with separators. -/
theorem mem_intercalate {sep c : Char} {parts : List Text} (h : c ∈ [sep].intercalate parts) :
    c = sep ∨ ∃ part ∈ parts, c ∈ part := by
  induction parts with
  | nil => cases h
  | cons part parts ih =>
    cases parts with
    | nil => exact .inr ⟨part, List.mem_cons_self, by simpa using h⟩
    | cons next parts =>
      rw [List.intercalate_cons_cons, List.mem_append, List.mem_append, List.mem_singleton] at h
      rcases h with (h | h) | h
      · exact .inr ⟨part, List.mem_cons_self, h⟩
      · exact .inl h
      · refine (ih h).imp_right ?_
        rintro ⟨p, hp, hc⟩
        exact ⟨p, List.mem_cons_of_mem part hp, hc⟩

/-- `char::to_digit`. -/
def toDigit (radix : ℕ) (c : Char) : Option ℕ :=
  let n := c.toNat
  let digit :=
    if '0'.toNat ≤ n ∧ n ≤ '9'.toNat then some (n - '0'.toNat)
    else if 'a'.toNat ≤ n ∧ n ≤ 'z'.toNat then some (n - 'a'.toNat + 10)
    else if 'A'.toNat ≤ n ∧ n ≤ 'Z'.toNat then some (n - 'A'.toNat + 10)
    else none
  digit.filter (· < radix)

/-- One more digit of a number below `bound`. -/
def pushDigit (radix bound acc : ℕ) (c : Char) : Option ℕ := do
  let digit ← toDigit radix c
  if acc * radix + digit < bound then some (acc * radix + digit) else none

/-- `from_str_radix` of an unsigned type with `bound` values: at least one digit, behind at most one
`+`. -/
def fromStrRadix (radix bound : ℕ) : Text → Option ℕ
  | [] => none
  | '+' :: c :: digits => (c :: digits).foldlM (pushDigit radix bound) 0
  | digits => digits.foldlM (pushDigit radix bound) 0

/-- `str::parse::<usize>`, of 64 bits. -/
def parseUsize (s : Text) : Option ℕ := fromStrRadix 10 (2 ^ 64) s

/-- A number in decimal, as it is printed. -/
def decimal (n : ℕ) : Text := Nat.toDigits 10 n

theorem isDigit_of_mem_decimal {n : ℕ} {c : Char} (h : c ∈ decimal n) : c.isDigit = true :=
  Nat.isDigit_of_mem_toDigits (by decide) (by decide) h

theorem isWord_decimal (n : ℕ) : IsWord (decimal n) := by
  refine ⟨Nat.toDigits_ne_nil, fun c hc => ?_⟩
  have hdigit := isDigit_of_mem_decimal hc
  simp only [Char.isDigit, Bool.and_eq_true, decide_eq_true_eq, UInt32.le_iff_toNat_le] at hdigit
  obtain ⟨hlo, hhi⟩ : 48 ≤ c.toNat ∧ c.toNat ≤ 57 := hdigit
  unfold isWhitespace
  generalize c.toNat = n at hlo hhi
  interval_cases n <;> rfl

theorem toDigit_digitChar {d : ℕ} (h : d < 10) : toDigit 10 d.digitChar = some d := by
  interval_cases d <;> rfl

/-- Reading a number's digits gives the number. -/
theorem foldlM_decimal {bound n : ℕ} (h : n < bound) :
    (decimal n).foldlM (pushDigit 10 bound) 0 = some n := by
  induction n using Nat.strong_induction_on with
  | _ n ih =>
    rcases Nat.lt_or_ge n 10 with hlt | hge
    · rw [decimal, Nat.toDigits_of_lt_base hlt, List.foldlM_cons, pushDigit, toDigit_digitChar hlt]
      simp [h]
    · -- all digits but the last are those of `n / 10`
      have hdiv : n / 10 < n := Nat.div_lt_self (by omega) (by decide)
      have hlast := Nat.div_add_mod' n 10
      rw [decimal, Nat.toDigits_of_base_le (by decide) hge, List.foldlM_append, ← decimal,
        ih _ hdiv (hdiv.trans h), Option.bind_eq_bind, Option.bind_some, List.foldlM_cons, pushDigit,
        toDigit_digitChar (Nat.mod_lt _ (by decide))]
      simp [hlast, h]

/-- A printed number is read back, if the type has it. -/
theorem fromStrRadix_decimal {bound n : ℕ} (h : n < bound) : fromStrRadix 10 bound (decimal n) = some n := by
  have hread := foldlM_decimal h
  obtain ⟨c, digits, hdigits⟩ := List.exists_cons_of_ne_nil (Nat.toDigits_ne_nil (n := n) (b := 10))
  have hc : c ≠ '+' := by
    rintro rfl
    have := isDigit_of_mem_decimal (n := n) (c := '+') (by rw [decimal, hdigits]; exact List.mem_cons_self)
    simp at this
  rw [decimal, hdigits] at hread ⊢
  unfold fromStrRadix
  split
  · next heq => cases heq
  · next heq => exact absurd (List.cons.inj heq).1 hc
  · exact hread

theorem parseUsize_decimal {n : ℕ} (h : n < 2 ^ 64) : parseUsize (decimal n) = some n :=
  fromStrRadix_decimal h

end Text
