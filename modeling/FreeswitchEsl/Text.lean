import Mathlib.Algebra.Group.Nat.Defs
import Mathlib.Data.List.DropRight
import Mathlib.Data.List.Infix
import Mathlib.Data.List.TakeWhile
import Mathlib.Tactic.Common

/-!
# Rust strings

A `str` is the sequence of its Unicode scalar values.  This module has the
string functions of the standard library that the client calls: trimming, line
splitting, the search for a separator, UTF-8 and decimal numbers.
-/

namespace FreeswitchEsl

/-- A Rust `str` or `String`, as its sequence of Unicode scalar values. -/
abbrev Str := List Char

/-- The elements of a `[u8]`. -/
abbrev Bytes := List UInt8

namespace Text

/-! ## Whitespace -/

/-- `char::is_whitespace`: the Unicode property `White_Space`. -/
def isWhitespace (c : Char) : Bool :=
  let n := c.toNat
  (9 ≤ n && n ≤ 13) || n == 0x20 || n == 0x85 || n == 0xA0 || n == 0x1680 ||
    (0x2000 ≤ n && n ≤ 0x200A) || n == 0x2028 || n == 0x2029 || n == 0x202F ||
      n == 0x205F || n == 0x3000

def trimStart (s : Str) : Str := s.dropWhile isWhitespace

def trimEnd (s : Str) : Str := s.rdropWhile isWhitespace

/-- `str::trim`. -/
def trim (s : Str) : Str := trimEnd (trimStart s)

@[simp] theorem trimStart_nil : trimStart [] = [] := rfl

@[simp] theorem trimEnd_nil : trimEnd [] = [] := rfl

@[simp] theorem trim_nil : trim [] = [] := rfl

theorem trimStart_cons (c : Char) (s : Str) :
    trimStart (c :: s) = if isWhitespace c then trimStart s else c :: s := by
  simp only [trimStart, List.dropWhile_cons]

theorem trimStart_append (s t : Str) :
    trimStart (s ++ t) = if trimStart s = [] then trimStart t else trimStart s ++ t := by
  induction s with
  | nil => simp
  | cons c s ih =>
      rw [List.cons_append, trimStart_cons, trimStart_cons]
      by_cases hc : isWhitespace c
      · simp [hc, ih]
      · simp [hc]

theorem trimEnd_eq_reverse (s : Str) : trimEnd s = (trimStart s.reverse).reverse := rfl

theorem trimEnd_append (s t : Str) :
    trimEnd (s ++ t) = if trimEnd t = [] then trimEnd s else s ++ trimEnd t := by
  simp only [trimEnd_eq_reverse, List.reverse_append, trimStart_append, List.reverse_eq_nil_iff]
  split <;> simp

theorem trimEnd_cons_of_not {c : Char} (hc : isWhitespace c = false) (s : Str) :
    trimEnd (c :: s) = c :: trimEnd s := by
  have hsingle : trimEnd [c] = [c] := by simp [trimEnd, List.rdropWhile, hc]
  rw [← List.singleton_append, trimEnd_append, hsingle]
  split <;> simp_all

/-- Nothing can be trimmed from `s`: it neither starts nor ends with
whitespace. -/
def Trimmed (s : Str) : Prop := trim s = s

instance (s : Str) : Decidable (Trimmed s) := inferInstanceAs (Decidable (trim s = s))

theorem trimEnd_length_le (s : Str) : (trimEnd s).length ≤ s.length :=
  (List.rdropWhile_prefix _ _).length_le

theorem trim_length_le (s : Str) : (trim s).length ≤ s.length :=
  (trimEnd_length_le _).trans (List.dropWhile_suffix _).length_le

theorem Trimmed.trimStart_eq {s : Str} (h : Trimmed s) : trimStart s = s := by
  have hsuffix : trimStart s <:+ s := List.dropWhile_suffix _
  refine hsuffix.eq_of_length (le_antisymm hsuffix.length_le ?_)
  calc s.length = (trim s).length := by rw [h]
    _ ≤ (trimStart s).length := trimEnd_length_le _

theorem Trimmed.trimEnd_eq {s : Str} (h : Trimmed s) : trimEnd s = s := by
  have hdef : trimEnd (trimStart s) = s := h
  rwa [h.trimStart_eq] at hdef

theorem trimmed_of_eq {s : Str} (h₁ : trimStart s = s) (h₂ : trimEnd s = s) : Trimmed s := by
  rw [Trimmed, trim, h₁, h₂]

theorem trimmed_of_forall {s : Str} (h : ∀ c ∈ s, isWhitespace c = false) : Trimmed s := by
  refine trimmed_of_eq ?_ ?_
  · cases s with
    | nil => rfl
    | cons c s => rw [trimStart_cons, h c (by simp)]; simp
  · rw [trimEnd, List.rdropWhile_eq_self_iff]
    intro hne
    simpa using h _ (List.getLast_mem hne)

theorem trimmed_append {s t : Str} (hs : trimStart s = s) (hsne : s ≠ []) (ht : trimEnd t = t)
    (htne : t ≠ []) : Trimmed (s ++ t) := by
  apply trimmed_of_eq
  · rw [trimStart_append, hs, if_neg hsne]
  · rw [trimEnd_append, ht, if_neg htne]

theorem trimStart_cons_of_not {c : Char} (hc : isWhitespace c = false) (s : Str) :
    trimStart (c :: s) = c :: s := by
  rw [trimStart_cons, if_neg (by simp [hc])]

theorem trimEnd_concat {c : Char} (hc : isWhitespace c = false) (s : Str) :
    trimEnd (s ++ [c]) = s ++ [c] := by
  have hsingle : trimEnd [c] = [c] := trimEnd_cons_of_not hc []
  rw [trimEnd_append, hsingle, if_neg (List.cons_ne_nil _ _)]

theorem trimEnd_eq_of_append {c : Char} {s t : Str} (hc : isWhitespace c = false)
    (h : trimEnd (s ++ c :: t) = s ++ c :: t) : trimEnd t = t := by
  have hsplit : s ++ c :: t = s ++ [c] ++ t := by simp
  rw [hsplit, trimEnd_append] at h
  split at h
  · rw [trimEnd_concat hc] at h
    obtain rfl : t = [] := by simpa using h
    rfl
  · exact List.append_cancel_left h

theorem trimmed_wrapped {c d : Char} (hc : isWhitespace c = false) (hd : isWhitespace d = false)
    (s : Str) : Trimmed (c :: s ++ [d]) := by
  apply trimmed_of_eq
  · exact trimStart_cons_of_not hc _
  · exact trimEnd_concat hd _

theorem trim_cons_of_whitespace {c : Char} (hc : isWhitespace c = true) (s : Str) :
    trim (c :: s) = trim s := by
  rw [trim, trimStart_cons, if_pos hc, trim]

theorem head?_trim_of_prefix {b c : Char} {s t : Str} (hb : isWhitespace b = true)
    (hc : isWhitespace c = false) (h : s <+: b :: c :: t) (hne : trim s ≠ []) :
    (trim s).head? = some c := by
  cases s with
  | nil => exact absurd rfl hne
  | cons b' s =>
      obtain ⟨rfl, hs⟩ := List.cons_prefix_cons.mp h
      rw [trim_cons_of_whitespace hb] at hne ⊢
      cases s with
      | nil => exact absurd rfl hne
      | cons c' s =>
          obtain ⟨rfl, -⟩ := List.cons_prefix_cons.mp hs
          rw [trim, trimStart_cons_of_not hc, trimEnd_cons_of_not hc]
          rfl

theorem trim_append_of_whitespace {c : Char} (hc : isWhitespace c = true) (s : Str) :
    trim (s ++ [c]) = trim s := by
  have hend : trimEnd [c] = [] := by simp [trimEnd, List.rdropWhile, hc]
  have hstart : trimStart [c] = [] := by simp [trimStart, hc]
  rw [trim, trim, trimStart_append, hstart]
  split
  · simp_all
  · rw [trimEnd_append, hend, if_pos rfl]

theorem mem_of_mem_trim {c : Char} {s : Str} (h : c ∈ trim s) : c ∈ s :=
  (List.dropWhile_suffix _).subset ((List.rdropWhile_prefix _ _).subset h)

theorem mem_trimStart {c : Char} {s : Str} (hc : isWhitespace c = false) (h : c ∈ s) :
    c ∈ trimStart s := by
  induction s with
  | nil => cases h
  | cons d s ih =>
      rw [trimStart_cons]
      split
      · rename_i hd
        rcases List.mem_cons.mp h with rfl | h
        · rw [hc] at hd
          cases hd
        · exact ih h
      · exact h

theorem mem_trimEnd {c : Char} {s : Str} (hc : isWhitespace c = false) (h : c ∈ s) :
    c ∈ trimEnd s := by
  rw [trimEnd_eq_reverse, List.mem_reverse]
  apply mem_trimStart hc
  rwa [List.mem_reverse]

/-- Only whitespace is trimmed. -/
theorem mem_trim {c : Char} {s : Str} (hc : isWhitespace c = false) (h : c ∈ s) : c ∈ trim s :=
  mem_trimEnd hc (mem_trimStart hc h)

theorem isWhitespace_of_trimStart_eq {c : Char} {s : Str} (h : trimStart (c :: s) = c :: s) :
    isWhitespace c = false := by
  by_contra hspace
  rw [trimStart_cons, if_pos (by simpa using hspace)] at h
  have hle := (List.dropWhile_suffix isWhitespace (l := s)).length_le
  rw [← trimStart, h, List.length_cons] at hle
  omega

theorem trimStart_trimEnd_comm (s : Str) : trimStart (trimEnd s) = trimEnd (trimStart s) := by
  induction s with
  | nil => rfl
  | cons c s ih =>
      by_cases hc : isWhitespace c = true
      · have hone : trimEnd [c] = [] := by simp [trimEnd, List.rdropWhile, hc]
        rw [trimStart_cons, if_pos hc, ← ih, ← List.singleton_append, trimEnd_append, hone]
        split
        · rename_i hnil
          rw [hnil]
        · rw [List.singleton_append, trimStart_cons, if_pos hc]
      · have hc' : isWhitespace c = false := by simpa using hc
        rw [trimStart_cons_of_not hc', trimEnd_cons_of_not hc', trimStart_cons_of_not hc']

theorem trim_trimStart (s : Str) : trim (trimStart s) = trim s :=
  congrArg trimEnd (List.dropWhile_idempotent _ s)

theorem trim_trimEnd (s : Str) : trim (trimEnd s) = trim s := by
  rw [trim, trimStart_trimEnd_comm]
  exact List.rdropWhile_idempotent _ _

theorem trimmed_trim (s : Str) : Trimmed (trim s) := by
  apply trimmed_of_eq
  · exact (trimStart_trimEnd_comm _).trans (congrArg trimEnd (List.dropWhile_idempotent _ s))
  · exact List.rdropWhile_idempotent _ _

theorem trim_ne_nil {s : Str} (h : trimStart s ≠ []) : trim s ≠ [] := by
  obtain ⟨c, t, ht⟩ := List.exists_cons_of_ne_nil h
  have hc : isWhitespace c = false := by
    have hhead := List.head_dropWhile_not isWhitespace h
    simpa [trimStart, show s.dropWhile isWhitespace = c :: t from ht] using hhead
  rw [trim, ht, trimEnd_cons_of_not hc]
  nofun

/-! ## Separators -/

/-- The text before and after the first occurrence of `sep`, as
`str::split_once` or `find` and slicing give them. -/
def splitOnce (sep : Char) : Str → Option (Str × Str)
  | [] => none
  | c :: s => if c = sep then some ([], s) else
      (splitOnce sep s).map fun p ↦ (c :: p.1, p.2)

theorem splitOnce_append {sep : Char} {s : Str} (hs : sep ∉ s) (t : Str) :
    splitOnce sep (s ++ sep :: t) = some (s, t) := by
  induction s with
  | nil => simp [splitOnce]
  | cons c s ih =>
      obtain ⟨hc, hs⟩ : sep ≠ c ∧ sep ∉ s := by simpa using hs
      simp [splitOnce, Ne.symm hc, ih hs]

theorem splitOnce_eq_some {sep : Char} {s a b : Str} (h : splitOnce sep s = some (a, b)) :
    s = a ++ sep :: b ∧ sep ∉ a := by
  induction s generalizing a with
  | nil => simp [splitOnce] at h
  | cons c s ih =>
      by_cases hc : c = sep
      · obtain ⟨rfl, rfl⟩ : a = [] ∧ s = b := by simpa [splitOnce, hc, eq_comm] using h
        simp [hc]
      · obtain ⟨p, hp, rfl⟩ : ∃ p, splitOnce sep s = some (p, b) ∧ c :: p = a := by
          simpa [splitOnce, hc] using h
        obtain ⟨rfl, hmem⟩ := ih hp
        simp [hmem, Ne.symm hc]

theorem splitOnce_eq_none_iff {sep : Char} {s : Str} : splitOnce sep s = none ↔ sep ∉ s := by
  induction s with
  | nil => simp [splitOnce]
  | cons c s ih =>
      by_cases hc : c = sep
      · simp [splitOnce, hc]
      · simp [splitOnce, hc, ih, Ne.symm hc]

/-! ## Joining -/

section Joining

variable {sep c : Char} {p : Str} {parts : List Str}

theorem intercalate_cons (hne : parts ≠ []) (p : Str) :
    [sep].intercalate (p :: parts) = p ++ sep :: [sep].intercalate parts := by
  rw [List.intercalate_cons_of_ne_nil hne, List.append_assoc, List.singleton_append]

theorem mem_intercalate (hp : p ∈ parts) (hc : c ∈ p) : c ∈ [sep].intercalate parts := by
  induction parts with
  | nil => cases hp
  | cons q parts ih =>
      by_cases hparts : parts = []
      · subst hparts
        obtain rfl := List.mem_singleton.mp hp
        rwa [List.intercalate_singleton]
      · rw [intercalate_cons hparts, List.mem_append, List.mem_cons]
        rcases List.mem_cons.mp hp with rfl | hp
        · exact Or.inl hc
        · exact Or.inr (Or.inr (ih hp))

theorem of_mem_intercalate (h : c ∈ [sep].intercalate parts) :
    c = sep ∨ ∃ p ∈ parts, c ∈ p := by
  induction parts with
  | nil => cases h
  | cons p parts ih =>
      by_cases hparts : parts = []
      · subst hparts
        rw [List.intercalate_singleton] at h
        exact Or.inr ⟨p, List.mem_cons_self, h⟩
      · rw [intercalate_cons hparts] at h
        rcases List.mem_append.mp h with h | h
        · exact Or.inr ⟨p, List.mem_cons_self, h⟩
        · rcases List.mem_cons.mp h with h | h
          · exact Or.inl h
          · rcases ih h with h | ⟨q, hq, h⟩
            · exact Or.inl h
            · exact Or.inr ⟨q, List.mem_cons_of_mem _ hq, h⟩

theorem head?_intercalate (hp : p ≠ []) (parts : List Str) :
    ([sep].intercalate (p :: parts)).head? = p.head? := by
  obtain ⟨d, s, rfl⟩ := List.exists_cons_of_ne_nil hp
  rw [List.intercalate_cons_cons_left]
  rfl

theorem getLast?_intercalate (hp : p ≠ []) (hlast : parts.getLast? = some p) :
    ([sep].intercalate parts).getLast? = p.getLast? := by
  induction parts with
  | nil => cases hlast
  | cons q parts ih =>
      by_cases hparts : parts = []
      · subst hparts
        obtain rfl : q = p := by simpa using hlast
        rw [List.intercalate_singleton]
      · have hrest : parts.getLast? = some p := by
          rwa [List.getLast?_cons_of_ne_nil hparts] at hlast
        have hmem : p ∈ parts := List.mem_of_getLast? hrest
        have hne : [sep].intercalate parts ≠ [] := by
          obtain ⟨d, hd⟩ := List.exists_mem_of_ne_nil p hp
          exact List.ne_nil_of_mem (mem_intercalate hmem hd)
        rw [intercalate_cons hparts, List.getLast?_append_of_ne_nil _ (List.cons_ne_nil _ _),
          List.getLast?_cons_of_ne_nil hne]
        exact ih hrest

end Joining

/-! ## Lines -/

/-- `str::split_inclusive('\n')`: every piece but the last ends with a newline. -/
def splitInclusive : Str → List Str
  | [] => []
  | c :: s =>
      if c = '\n' then ['\n'] :: splitInclusive s else
        match splitInclusive s with
        | [] => [[c]]
        | l :: ls => (c :: l) :: ls

/-- A piece of `splitInclusive` without its line ending `\n` or `\r\n`; a
carriage return without newline stays. -/
def stripLineEnding (l : Str) : Str :=
  if l.getLast? = some '\n' then
    let l := l.dropLast
    if l.getLast? = some '\r' then l.dropLast else l
  else l

/-- `str::lines`. -/
def lines (s : Str) : List Str := (splitInclusive s).map stripLineEnding

theorem splitInclusive_append {l : Str} (hl : '\n' ∉ l) (s : Str) :
    splitInclusive (l ++ '\n' :: s) = (l ++ ['\n']) :: splitInclusive s := by
  induction l with
  | nil => simp [splitInclusive]
  | cons c l ih =>
      obtain ⟨hc, hl⟩ : '\n' ≠ c ∧ '\n' ∉ l := by simpa using hl
      simp [splitInclusive, Ne.symm hc, ih hl]

theorem splitInclusive_of_not_mem {l : Str} (hl : '\n' ∉ l) (hne : l ≠ []) :
    splitInclusive l = [l] := by
  induction l with
  | nil => exact absurd rfl hne
  | cons c l ih =>
      obtain ⟨hc, hl⟩ : '\n' ≠ c ∧ '\n' ∉ l := by simpa using hl
      cases l with
      | nil => simp [splitInclusive, Ne.symm hc]
      | cons d l => rw [splitInclusive, if_neg (Ne.symm hc), ih hl (by simp)]

theorem trim_dropLast {l : Str} {c : Char} (hc : isWhitespace c = true)
    (hl : l.getLast? = some c) : trim l.dropLast = trim l := by
  obtain ⟨m, rfl⟩ := List.getLast?_eq_some_iff.mp hl
  rw [List.dropLast_concat, trim_append_of_whitespace hc]

theorem trim_stripLineEnding (l : Str) : trim (stripLineEnding l) = trim l := by
  unfold stripLineEnding
  split
  · rename_i h
    dsimp only
    split
    · rename_i h'
      rw [trim_dropLast (by decide) h', trim_dropLast (by decide) h]
    · exact trim_dropLast (by decide) h
  · rfl

theorem of_mem_splitInclusive {s l : Str} (h : l ∈ splitInclusive s) :
    ∃ m, '\n' ∉ m ∧ (l = m ∨ l = m ++ ['\n']) := by
  induction s generalizing l with
  | nil => cases h
  | cons c s ih =>
      rw [splitInclusive] at h
      split at h
      · rcases List.mem_cons.mp h with rfl | h
        · exact ⟨[], by simp, Or.inr rfl⟩
        · exact ih h
      · rename_i hc
        split at h
        · obtain rfl := List.mem_singleton.mp h
          exact ⟨[c], by simpa using Ne.symm hc, Or.inl rfl⟩
        · rename_i l' ls hsplit
          rw [hsplit] at ih
          rcases List.mem_cons.mp h with rfl | h
          · obtain ⟨m, hm, hl⟩ := ih List.mem_cons_self
            refine ⟨c :: m, by simp [hm, Ne.symm hc], ?_⟩
            rcases hl with rfl | rfl
            · exact Or.inl rfl
            · exact Or.inr rfl
          · exact ih (List.mem_cons_of_mem _ h)

theorem newline_notMem_of_mem_lines {s l : Str} (h : l ∈ lines s) : '\n' ∉ l := by
  obtain ⟨piece, hpiece, rfl⟩ := List.mem_map.mp h
  obtain ⟨m, hm, hl⟩ := of_mem_splitInclusive hpiece
  unfold stripLineEnding
  rcases hl with rfl | rfl
  · rw [if_neg]
    · exact hm
    · exact fun hlast ↦ hm (List.mem_of_getLast? hlast)
  · rw [if_pos (by simp), List.dropLast_concat]
    dsimp only
    split
    · exact fun hmem ↦ hm ((List.dropLast_subset m) hmem)
    · exact hm

/-! ## Prefixes and replacement -/

def stripPrefix (p s : Str) : Option Str :=
  if p <+: s then some (s.drop p.length) else none

def stripSuffix (p s : Str) : Option Str :=
  if p <:+ s then some (s.take (s.length - p.length)) else none

theorem stripPrefix_append (p s : Str) : stripPrefix p (p ++ s) = some s := by
  rw [stripPrefix, if_pos (List.prefix_append p s), List.drop_left]

theorem stripPrefix_cons (c : Char) (s : Str) : stripPrefix [c] (c :: s) = some s :=
  stripPrefix_append [c] s

theorem stripPrefix_of_head?_ne {c : Char} {s : Str} (h : s.head? ≠ some c) :
    stripPrefix [c] s = none := by
  rw [stripPrefix, if_neg]
  rintro ⟨t, rfl⟩
  exact h rfl

theorem stripSuffix_of_getLast?_ne {c : Char} {s : Str} (h : s.getLast? ≠ some c) :
    stripSuffix [c] s = none := by
  rw [stripSuffix, if_neg]
  rintro ⟨t, rfl⟩
  exact h List.getLast?_concat

theorem stripSuffix_append (s p : Str) : stripSuffix p (s ++ p) = some s := by
  rw [stripSuffix, if_pos (List.suffix_append s p), List.length_append, Nat.add_sub_cancel,
    List.take_left]

theorem stripPrefix_eq_some {p s t : Str} (h : stripPrefix p s = some t) : s = p ++ t := by
  rw [stripPrefix] at h
  split at h
  · rename_i hprefix
    obtain ⟨u, rfl⟩ := hprefix
    rw [List.drop_left] at h
    rw [Option.some.inj h]
  · cases h

theorem stripSuffix_eq_some {p s t : Str} (h : stripSuffix p s = some t) : s = t ++ p := by
  rw [stripSuffix] at h
  split at h
  · rename_i hsuffix
    obtain ⟨u, rfl⟩ := hsuffix
    rw [List.length_append, Nat.add_sub_cancel, List.take_left] at h
    rw [Option.some.inj h]
  · cases h

theorem mem_of_mem_stripPrefix {p s t : Str} {c : Char} (h : stripPrefix p s = some t)
    (hc : c ∈ t) : c ∈ s := by
  rw [stripPrefix_eq_some h]
  exact List.mem_append_right _ hc

theorem mem_of_mem_stripSuffix {p s t : Str} {c : Char} (h : stripSuffix p s = some t)
    (hc : c ∈ t) : c ∈ s := by
  rw [stripSuffix_eq_some h]
  exact List.mem_append_left _ hc

theorem strip_wrapped (c : Char) (s : Str) :
    (stripPrefix [c] (c :: s ++ [c])).bind (stripSuffix [c]) = some s := by
  rw [List.cons_append, stripPrefix_cons]
  exact stripSuffix_append s [c]

/-- `str::replace` of one character. -/
def replaceChar (c : Char) (by' : Str) (s : Str) : Str :=
  s.flatMap fun d ↦ if d = c then by' else [d]

/-- `str::replace` of a two-character pattern by one character, from the left. -/
def replacePair (p q by' : Char) : Str → Str
  | c :: d :: rest =>
      if c = p ∧ d = q then by' :: replacePair p q by' rest
      else c :: replacePair p q by' (d :: rest)
  | s => s

/-! ## Numbers -/

/-- Decimal digits of a number, as `format!("{}", n)` writes them. -/
def displayNat (n : Nat) : Str := Nat.toDigits 10 n

/-- `str::parse` for an unsigned integer type with values below `bound`: an
optional plus sign, then at least one decimal digit. -/
def parseUnsigned (bound : Nat) (s : Str) : Option Nat :=
  let digits := if s.head? = some '+' then s.tail else s
  if digits ≠ [] ∧ digits.all Char.isDigit = true ∧ Nat.ofDigitChars 10 digits 0 < bound then
    some (Nat.ofDigitChars 10 digits 0)
  else none

/-- The text of the error when `parseUnsigned` fails on digits read so far. -/
def parseErrorLoop (bound value : Nat) : Str → Str
  | [] => "cannot parse integer from empty string".toList
  | c :: rest =>
      if c.isDigit = false then "invalid digit found in string".toList
      else if bound ≤ 10 * value + (c.toNat - '0'.toNat) then
        "number too large to fit in target type".toList
      else parseErrorLoop bound (10 * value + (c.toNat - '0'.toNat)) rest

/-- The text of a `ParseIntError`; a lone sign has an invalid digit. -/
def parseError (bound : Nat) (s : Str) : Str :=
  if s = ['+'] then "invalid digit found in string".toList
  else parseErrorLoop bound 0 (if s.head? = some '+' then s.tail else s)

/-- `str::parse::<usize>` on a 64-bit target. -/
def parseUsize (s : Str) : Option Nat := parseUnsigned (2 ^ 64) s

/-- `str::parse::<u32>`. -/
def parseU32 (s : Str) : Option Nat := parseUnsigned (2 ^ 32) s

theorem isDigit_of_mem_displayNat {n : Nat} {c : Char} (h : c ∈ displayNat n) :
    c.isDigit = true :=
  Nat.isDigit_of_mem_toDigits (by omega) (by omega) h

theorem displayNat_ne_nil (n : Nat) : displayNat n ≠ [] := Nat.toDigits_ne_nil

theorem isWhitespace_of_isDigit {c : Char} (h : c.isDigit = true) : isWhitespace c = false := by
  have hrange : 48 ≤ c.toNat ∧ c.toNat ≤ 57 := by
    simpa [Char.isDigit, UInt32.le_iff_toNat_le] using h
  simp [isWhitespace]
  omega

theorem isAlphanum_of_isLower {c : Char} (h : c.isLower = true) : c.isAlphanum = true := by
  have hor : c.isAlphanum = (c.isUpper || c.isLower || c.isDigit) := rfl
  rw [hor, h, Bool.or_true, Bool.true_or]

theorem isWhitespace_of_isAlphanum {c : Char} (h : c.isAlphanum = true) :
    isWhitespace c = false := by
  have hrange : 48 ≤ c.toNat ∧ c.toNat ≤ 57 ∨ 65 ≤ c.toNat ∧ c.toNat ≤ 90 ∨
      97 ≤ c.toNat ∧ c.toNat ≤ 122 := by
    have hor : c.isAlphanum = (c.isUpper || c.isLower || c.isDigit) := rfl
    rw [hor, Bool.or_eq_true, Bool.or_eq_true] at h
    rcases h with (hupper | hlower) | hdigit
    · have hval : c.val ≥ 'A'.val ∧ c.val ≤ 'Z'.val := of_decide_eq_true hupper
      exact Or.inr (Or.inl hval)
    · obtain ⟨hlow, hhigh⟩ := Bool.and_eq_true_iff.mp hlower
      exact Or.inr (Or.inr ⟨of_decide_eq_true hlow, of_decide_eq_true hhigh⟩)
    · obtain ⟨hlow, hhigh⟩ := Bool.and_eq_true_iff.mp hdigit
      exact Or.inl ⟨of_decide_eq_true hlow, of_decide_eq_true hhigh⟩
  simp [isWhitespace]
  omega

theorem trimmed_displayNat (n : Nat) : Trimmed (displayNat n) :=
  trimmed_of_forall fun _ hc ↦ isWhitespace_of_isDigit (isDigit_of_mem_displayNat hc)

theorem newline_notMem_displayNat (n : Nat) : '\n' ∉ displayNat n := fun h ↦
  absurd (isDigit_of_mem_displayNat h) (by decide)

theorem parseUnsigned_displayNat_eq (bound n : Nat) :
    parseUnsigned bound (displayNat n) = if n < bound then some n else none := by
  have hsign : (displayNat n).head? ≠ some '+' := by
    intro hhead
    have hmem : '+' ∈ displayNat n := List.mem_of_mem_head? hhead
    exact absurd (isDigit_of_mem_displayNat hmem) (by decide)
  have hall : (displayNat n).all Char.isDigit = true :=
    List.all_eq_true.mpr fun _ hc ↦ isDigit_of_mem_displayNat hc
  have hvalue : Nat.ofDigitChars 10 (displayNat n) 0 = n := Nat.ofDigitChars_ten_toDigits
  simp only [parseUnsigned, if_neg hsign, hvalue]
  by_cases hn : n < bound
  · rw [if_pos ⟨displayNat_ne_nil n, hall, hn⟩, if_pos hn]
  · rw [if_neg fun h ↦ hn h.2.2, if_neg hn]

theorem parseUnsigned_displayNat {bound n : Nat} (h : n < bound) :
    parseUnsigned bound (displayNat n) = some n := by
  rw [parseUnsigned_displayNat_eq, if_pos h]

theorem lt_of_parseUnsigned {bound n : Nat} {s : Str} (h : parseUnsigned bound s = some n) :
    n < bound := by
  unfold parseUnsigned at h
  generalize (if s.head? = some '+' then s.tail else s) = digits at h
  dsimp only at h
  split at h
  · rename_i hdigits
    obtain rfl := Option.some.inj h
    exact hdigits.2.2
  · cases h

theorem parseUnsigned_of_mem {bound : Nat} {s : Str} {c : Char} (hmem : c ∈ s)
    (hdigit : c.isDigit = false) (hplus : c ≠ '+') : parseUnsigned bound s = none := by
  have hdigits : c ∈ if s.head? = some '+' then s.tail else s := by
    split
    · rename_i hhead
      obtain ⟨rest, rfl⟩ := List.head?_eq_some_iff.mp hhead
      exact (List.mem_cons.mp hmem).resolve_left hplus
    · exact hmem
  refine if_neg fun h ↦ ?_
  have hall := List.all_eq_true.mp h.2.1 c hdigits
  rw [hdigit] at hall
  cases hall

/-! ## UTF-8 -/

/-- `str::as_bytes`. -/
def utf8Encode (s : Str) : Bytes := s.flatMap String.utf8EncodeChar

/-- `String::from_utf8`. -/
def utf8Decode (b : Bytes) : Option Str := b.toByteArray.utf8Decode?.map Array.toList

@[simp] theorem utf8Encode_nil : utf8Encode [] = [] := rfl

@[simp] theorem utf8Encode_append (s t : Str) :
    utf8Encode (s ++ t) = utf8Encode s ++ utf8Encode t := List.flatMap_append

theorem utf8Encode_cons (c : Char) (s : Str) :
    utf8Encode (c :: s) = String.utf8EncodeChar c ++ utf8Encode s := List.flatMap_cons

@[simp] theorem utf8Decode_utf8Encode (s : Str) : utf8Decode (utf8Encode s) = some s := by
  have henc : (utf8Encode s).toByteArray = s.utf8Encode := rfl
  rw [utf8Decode, henc, List.utf8Decode?_utf8Encode]
  simp

theorem toNat_of_mem_utf8EncodeChar {b : UInt8} {c : Char} (hb : b.toNat < 128)
    (h : b ∈ String.utf8EncodeChar c) : c.toNat = b.toNat := by
  have hc : c.val.toNat = c.toNat := rfl
  -- every byte of a longer encoding has its high bit set
  have hlarge : ∀ k, 128 ≤ k → k < 256 → b ≠ UInt8.ofNat k := by
    rintro k hk hk' rfl
    rw [UInt8.toNat_ofNat_of_lt' hk'] at hb
    omega
  unfold String.utf8EncodeChar at h
  dsimp only at h
  rw [hc] at h
  split at h
  · obtain rfl := List.mem_singleton.mp h
    rw [UInt8.toNat_ofNat_of_lt' (by simp only [UInt8.size]; omega)]
  · exfalso
    split at h
    · simp only [List.mem_cons, List.not_mem_nil, or_false] at h
      rcases h with h | h <;> exact hlarge _ (by omega) (by omega) h
    · split at h
      · simp only [List.mem_cons, List.not_mem_nil, or_false] at h
        rcases h with h | h | h <;> exact hlarge _ (by omega) (by omega) h
      · simp only [List.mem_cons, List.not_mem_nil, or_false] at h
        rcases h with h | h | h | h <;> exact hlarge _ (by omega) (by omega) h

theorem mem_utf8Encode_iff {s : Str} {c : Char} (hc : c.toNat < 128) :
    UInt8.ofNat c.toNat ∈ utf8Encode s ↔ c ∈ s := by
  simp only [utf8Encode, List.mem_flatMap]
  have hbyte : (UInt8.ofNat c.toNat).toNat = c.toNat :=
    UInt8.toNat_ofNat_of_lt' (by simp only [UInt8.size]; omega)
  constructor
  · rintro ⟨d, hd, hmem⟩
    have hval : d.toNat = c.toNat := by
      rw [toNat_of_mem_utf8EncodeChar (by omega) hmem, hbyte]
    obtain rfl : d = c := Char.toNat_inj.mp hval
    exact hd
  · intro hmem
    refine ⟨c, hmem, ?_⟩
    have hle : c.toNat ≤ 127 := Nat.le_of_lt_succ hc
    simp [String.utf8EncodeChar, hle]

theorem newline_mem_utf8Encode {s : Str} : (10 : UInt8) ∈ utf8Encode s ↔ '\n' ∈ s :=
  mem_utf8Encode_iff (c := '\n') (by decide)

theorem utf8Encode_of_utf8Decode {b : Bytes} {s : Str} (h : utf8Decode b = some s) :
    utf8Encode s = b := by
  obtain ⟨chars, hchars, rfl⟩ := Option.map_eq_some_iff.mp h
  have hsome : (b.toByteArray.utf8Decode?).isSome = true := by rw [hchars]; rfl
  have henc := ByteArray.utf8Encode_get_utf8Decode? (h := hsome)
  simp only [hchars, Option.get_some] at henc
  have hbytes := congrArg (fun a ↦ a.data.toList) henc
  simpa [List.utf8Encode, utf8Encode] using hbytes

theorem utf8Encode_ne_nil {s : Str} (hs : s ≠ []) : utf8Encode s ≠ [] := by
  cases s with
  | nil => exact absurd rfl hs
  | cons c s =>
      rw [utf8Encode_cons]
      intro h
      have hlen := String.length_utf8EncodeChar c
      have hpos := c.utf8Size_pos
      simp_all

end Text

end FreeswitchEsl
