import FreeswitchEsl.Originate.Endpoint
import FreeswitchEsl.Originate.Scan

/-!
# Escaped values and tokens

Values and tokens are written with a backslash in front of their quotes, and values also
in front of their commas.  Reading takes this back, whatever the text.
-/

namespace FreeswitchEsl

open Quoting Text

theorem replacePair_eq (x : Char) (s : Str) :
    replacePair '\\' x x s = unescapeItem '\\' x s := by
  fun_induction unescapeItem '\\' x s with
  | case1 c d rest hpair ih => rw [replacePair, if_pos hpair, ih]
  | case2 c d rest hpair ih => rw [replacePair, if_neg hpair, ih]
  | case3 s hs =>
      rw [replacePair]
      exact hs

/-! ## Values -/

/-- The value with its quotes and commas escaped, before it is quoted itself. -/
def escapedText (value : Str) : Str := escapeItem '\\' ',' (escapeItem '\\' '\'' value)

theorem escaped_quote_escapedText (value : Str) (prev : Option Char) :
    Escaped '\\' '\'' prev (escapedText value) :=
  (escaped_escapeItem (by decide) prev value).escapeItem (by decide) (by decide)

theorem escaped_comma_escapedText (value : Str) (prev : Option Char) :
    Escaped '\\' ',' prev (escapedText value) := escaped_escapeItem (by decide) prev _

theorem mem_escapedText {c : Char} (hc : c ≠ '\\') {value : Str} :
    c ∈ escapedText value ↔ c ∈ value := by
  rw [escapedText, mem_escapeItem hc, mem_escapeItem hc]

theorem getLast?_escapedText (value : Str) :
    (escapedText value).getLast? = value.getLast? := by
  rw [escapedText, getLast?_escapeItem, getLast?_escapeItem]

theorem escapeValue_of_mem {value : Str} (h : ' ' ∈ value) :
    escapeValue value = '\'' :: escapedText value ++ ['\''] :=
  if_pos ((mem_escapedText (by decide)).mpr h)

theorem escapeValue_of_notMem {value : Str} (h : ' ' ∉ value) :
    escapeValue value = escapedText value :=
  if_neg fun hmem ↦ h ((mem_escapedText (by decide)).mp hmem)

theorem unescapeValue_escapeValue (value : Str) : unescapeValue (escapeValue value) = value := by
  have hback : replacePair '\\' '\'' '\'' (replacePair '\\' ',' ',' (escapedText value)) =
      value := by
    rw [replacePair_eq, replacePair_eq, escapedText, unescapeItem_escapeItem (by decide),
      unescapeItem_escapeItem (by decide)]
  by_cases hspace : ' ' ∈ value
  · rw [escapeValue_of_mem hspace, unescapeValue, strip_wrapped]
    exact hback
  · have hhead : (escapedText value).head? ≠ some '\'' :=
      head?_escapeItem_ne_of_ne (by decide) (head?_escapeItem_ne (by decide))
    rw [escapeValue_of_notMem hspace, unescapeValue, stripPrefix_of_head?_ne hhead]
    exact hback

theorem mem_unescapeValue {c : Char} {value : Str} (h : c ∈ unescapeValue value) :
    c = '\'' ∨ c = ',' ∨ c ∈ value := by
  rw [unescapeValue, replacePair_eq, replacePair_eq] at h
  rcases of_mem_unescapeItem h with h | h
  · exact Or.inl h
  · rcases of_mem_unescapeItem h with h | h
    · exact Or.inr (Or.inl h)
    · refine Or.inr (Or.inr ?_)
      cases hstrip : (stripPrefix ['\''] value).bind (stripSuffix ['\'']) with
      | none =>
          rw [hstrip] at h
          exact h
      | some inner =>
          rw [hstrip] at h
          obtain ⟨rest, hrest, hinner⟩ := Option.bind_eq_some_iff.mp hstrip
          exact mem_of_mem_stripPrefix hrest (mem_of_mem_stripSuffix hinner h)

/-! ## Tokens -/

theorem originateQuote_of_mem {token : Str} (h : ' ' ∈ token) :
    originateQuote token = '\'' :: escapeItem '\\' '\'' token ++ ['\''] := if_pos h

theorem originateUnquote_wrapped (s : Str) :
    originateUnquote ('\'' :: s ++ ['\'']) = unescapeItem '\\' '\'' s := by
  rw [originateUnquote, strip_wrapped]
  exact replacePair_eq '\'' s

/-- Quotes around a token are taken away, and nothing is put in their place. -/
theorem length_originateUnquote_lt (s : Str) :
    (originateUnquote ('\'' :: s ++ ['\''])).length < ('\'' :: s ++ ['\'']).length := by
  have hle := length_unescapeItem_le '\\' '\'' s
  rw [originateUnquote_wrapped, List.length_append, List.length_cons]
  omega

theorem originateUnquote_originateQuote_of_mem {token : Str} (h : ' ' ∈ token) :
    originateUnquote (originateQuote token) = token := by
  rw [originateQuote_of_mem h, originateUnquote_wrapped]
  exact unescapeItem_escapeItem (by decide) token

end FreeswitchEsl
