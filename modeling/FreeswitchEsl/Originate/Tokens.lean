import FreeswitchEsl.Error

/-!
# Tokens of an originate command

Quoting, unquoting and the quote-aware tokenizer.
-/

namespace FreeswitchEsl

open Text

/-- `Result<T, OriginateError>`. -/
abbrev OriginateResult (α : Type) := Except OriginateError α

/-- Wrap a token in single quotes for originate command strings. -/
def originateQuote (token : Str) : Str :=
  if ' ' ∈ token then '\'' :: replaceChar '\'' ['\\', '\''] token ++ ['\''] else token

/-- Strip single-quote wrapping added by `originateQuote`. -/
def originateUnquote (token : Str) : Str :=
  match (stripPrefix ['\''] token).bind (stripSuffix ['\'']) with
  | some inner => replacePair '\\' '\'' '\'' inner
  | none => token

/-- The loop of `originate_split`; `prev` is the character before the next one. -/
def originateSplitLoop (splitAt : Char) :
    Option Char → Str → Bool → Str → OriginateResult (List Str)
  | _, token, inQuote, [] =>
      if inQuote then .error (.unclosedQuote token)
      else if trim token = [] then .ok [] else .ok [trim token]
  | prev, token, inQuote, ch :: rest =>
      if ch = splitAt ∧ inQuote = false ∧ trim token ≠ [] then do
        let tokens ← originateSplitLoop splitAt (some ch) [] inQuote rest
        return trim token :: tokens
      else
        let inQuote := if ch = '\'' ∧ prev ≠ some '\\' then !inQuote else inQuote
        originateSplitLoop splitAt (some ch) (token ++ [ch]) inQuote rest

def originateSplit (line : Str) (splitAt : Char) : OriginateResult (List Str) :=
  originateSplitLoop splitAt none [] false line

/-! ## Lines without quotes -/

/-- A word has neither whitespace nor a single quote. -/
def Word (s : Str) : Prop := s ≠ [] ∧ ∀ c ∈ s, isWhitespace c = false ∧ c ≠ '\''

instance (s : Str) : Decidable (Word s) :=
  decidable_of_iff (s ≠ [] ∧ s.all (fun c ↦ isWhitespace c = false ∧ c ≠ '\'') = true)
    (by simp [Word])

theorem Word.trimmed {s : Str} (h : Word s) : Trimmed s :=
  trimmed_of_forall fun c hc ↦ (h.2 c hc).1

theorem Word.space_notMem {s : Str} (h : Word s) : ' ' ∉ s :=
  fun hmem ↦ absurd (h.2 ' ' hmem).1 (by decide)

/-! ## Quoting -/

section Quote

variable {token : Str}

theorem originateQuote_of_notMem (h : ' ' ∉ token) : originateQuote token = token := if_neg h

theorem originateUnquote_of_head?_ne (h : token.head? ≠ some '\'') :
    originateUnquote token = token := by
  rw [originateUnquote, stripPrefix_of_head?_ne h]
  rfl

theorem originateUnquote_of_getLast?_ne (h : token.getLast? ≠ some '\'') :
    originateUnquote token = token := by
  by_cases hhead : token.head? = some '\''
  · obtain ⟨rest, rfl⟩ := List.head?_eq_some_iff.mp hhead
    have hlast : rest.getLast? ≠ some '\'' := by
      cases rest with
      | nil => nofun
      | cons c rest => rwa [List.getLast?_cons_cons] at h
    rw [originateUnquote, stripPrefix_cons, Option.bind_some, stripSuffix_of_getLast?_ne hlast]
  · exact originateUnquote_of_head?_ne hhead

theorem originateUnquote_of_word (h : Word token) : originateUnquote token = token :=
  originateUnquote_of_head?_ne fun hhead ↦ (h.2 _ (List.mem_of_mem_head? hhead)).2 rfl

end Quote

end FreeswitchEsl
