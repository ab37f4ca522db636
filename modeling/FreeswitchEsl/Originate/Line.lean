import FreeswitchEsl.Originate.Command
import FreeswitchEsl.Originate.Escape

/-!
# The line of an originate command

The line is its tokens with a space between them.  It is read by splitting it into
tokens, and the tokens that were written come back if each of them is one.
-/

namespace FreeswitchEsl

open Quoting Text

/-! ## Tokens on a line -/

theorem Word.isToken {sep : Char} {s : Str} (h : Word s) (hsep : sep ∉ s) : IsToken sep s := by
  have hhead : s.head? ≠ some sep := fun hhead ↦ hsep (List.mem_of_mem_head? hhead)
  have hquote : '\'' ∉ s := fun hmem ↦ (h.2 _ hmem).2 rfl
  refine ⟨h.1, h.trimmed, ?_⟩
  rw [scanToken_eq hhead, scanQuotes_of_notMem hsep, quoteAfter_of_notMem hquote]

theorem intercalate_space (t : Str) (tokens : List Str) :
    [' '].intercalate (t :: tokens) = t ++ tokens.flatMap fun token ↦ ' ' :: token := by
  induction tokens generalizing t with
  | nil => simp
  | cons u tokens ih =>
      rw [List.intercalate_cons_cons, ih, List.flatMap_cons]
      simp

/-- Nothing can be trimmed from a line if nothing can be trimmed from its tokens. -/
theorem trimmed_intercalate (sep : Char) {tokens : List Str}
    (h : ∀ t ∈ tokens, t ≠ [] ∧ Trimmed t) : Trimmed ([sep].intercalate tokens) := by
  induction tokens with
  | nil => exact trim_nil
  | cons t tokens ih =>
      obtain ⟨hne, ht⟩ := h t List.mem_cons_self
      by_cases htokens : tokens = []
      · subst htokens
        rw [List.intercalate_singleton]
        exact ht
      · have hrest := ih fun u hu ↦ h u (List.mem_cons_of_mem _ hu)
        have hrestne : [sep].intercalate tokens ≠ [] := by
          obtain ⟨u, tokens, rfl⟩ := List.exists_cons_of_ne_nil htokens
          obtain ⟨c, hc⟩ := List.exists_mem_of_ne_nil u (h u (by simp)).1
          exact List.ne_nil_of_mem (mem_intercalate List.mem_cons_self hc)
        rw [intercalate_cons htokens]
        apply trimmed_append ht.trimStart_eq hne
        · rw [← List.singleton_append, trimEnd_append, hrest.trimEnd_eq, if_neg hrestne]
        · exact List.cons_ne_nil _ _

theorem IsToken.ne_nil_and_trimmed {sep : Char} {t : Str} (h : IsToken sep t) :
    t ≠ [] ∧ Trimmed t := ⟨h.ne_nil, h.trimmed⟩

/-! ## The application token -/

section Quote

variable {token : Str}

theorem trimmed_originateQuote (h : Trimmed token) : Trimmed (originateQuote token) := by
  by_cases hspace : ' ' ∈ token
  · rw [originateQuote_of_mem hspace]
    exact trimmed_wrapped (by decide) (by decide) _
  · rwa [originateQuote_of_notMem hspace]

theorem originateQuote_ne_nil (h : token ≠ []) : originateQuote token ≠ [] := by
  by_cases hspace : ' ' ∈ token
  · rw [originateQuote_of_mem hspace]
    exact List.cons_ne_nil _ _
  · rwa [originateQuote_of_notMem hspace]

/-- A backslash at the end of a quoted text hides the closing quote. -/
theorem quoteAfter_originateQuote (token : Str) :
    quoteAfter '\'' '\\' none false (originateQuote token) =
      if ' ' ∈ token then decide (token.getLast? = some '\\')
      else quoteAfter '\'' '\\' none false token := by
  by_cases hspace : ' ' ∈ token
  · have hescaped := @escaped_escapeItem _ _ '\\' '\'' (by decide) (some '\'') token
    rw [originateQuote_of_mem hspace, if_pos hspace,
      quoteAfter_wrapped hescaped (by decide) (by decide), getLast?_escapeItem]
    by_cases hlast : token.getLast? = some '\\' <;> simp [hlast]
  · rw [originateQuote_of_notMem hspace, if_neg hspace]

/-- A token that was quoted where it has a space is not split. -/
theorem scanToken_originateQuote (token : Str) :
    scanToken '\'' '\\' ' ' (originateQuote token) =
      some (quoteAfter '\'' '\\' none false (originateQuote token)) := by
  rw [quoteAfter_originateQuote]
  by_cases hspace : ' ' ∈ token
  · have hescaped := @escaped_escapeItem _ _ '\\' '\'' (by decide) (some '\'') token
    have hmem : ' ' ∈ escapeItem '\\' '\'' token :=
      (mem_escapeItem (by decide)).mpr hspace
    have hhead : (originateQuote token).head? ≠ some ' ' := by
      rw [originateQuote_of_mem hspace]
      nofun
    rw [if_pos hspace, scanToken_eq hhead, originateQuote_of_mem hspace,
      scanQuotes_wrapped hescaped (by decide) (by decide) (by decide) hmem, getLast?_escapeItem]
    rfl
  · have hhead : token.head? ≠ some ' ' := fun hhead ↦ hspace (List.mem_of_mem_head? hhead)
    rw [if_neg hspace, originateQuote_of_notMem hspace, scanToken_eq hhead,
      scanQuotes_of_notMem hspace]

theorem isToken_originateQuote_iff (hne : token ≠ []) (htrim : Trimmed token) :
    IsToken ' ' (originateQuote token) ↔
      quoteAfter '\'' '\\' none false (originateQuote token) = false := by
  refine ⟨fun h ↦ quoteAfter_of_scanToken h.closed, fun h ↦ ?_⟩
  refine ⟨originateQuote_ne_nil hne, trimmed_originateQuote htrim, ?_⟩
  rw [scanToken_originateQuote, h]

theorem originateUnquote_originateQuote_of_head?_ne (h : token.head? ≠ some '\'') :
    originateUnquote (originateQuote token) = token := by
  by_cases hspace : ' ' ∈ token
  · exact originateUnquote_originateQuote_of_mem hspace
  · rw [originateQuote_of_notMem hspace, originateUnquote_of_head?_ne h]

end Quote

namespace Originate

/-! ## Writing and reading the line -/

theorem display_of_ok {o : Originate} {apps : Str}
    (h : applicationsToString o.applications (o.dialplan.getD .xml) = .ok apps) :
    o.display = some ("originate".toList ++ ' ' :: [' '].intercalate
      (o.endpoint.display :: originateQuote apps :: o.fields)) := by
  rw [display, h, intercalate_space, List.flatMap_cons]
  simp

/-- The part of `from_str` behind the tokenizer. -/
def fromTokens : List Str → OriginateResult Originate
  | [] => .error (.parseError "empty originate".toList)
  | endpointStr :: args => do
      let endpoint ← Endpoint.fromStr endpointStr
      match args with
      | [] => .error (.parseError "missing application in originate".toList)
      | appArg :: args => fromArgs endpoint (originateUnquote appArg) args

theorem fromTokens_cons_cons {endpointStr : Str} {endpoint : Endpoint}
    (h : Endpoint.fromStr endpointStr = .ok endpoint) (appArg : Str) (args : List Str) :
    fromTokens (endpointStr :: appArg :: args) =
      fromArgs endpoint (originateUnquote appArg) args := by
  rw [fromTokens, h]
  rfl

theorem fromStr_eq (s : Str) :
    fromStr s = originateSplit (trim ((stripPrefix "originate".toList s).getD s)) ' ' >>=
      fromTokens := rfl

theorem fromStr_line {line : Str} (h : Trimmed line) :
    fromStr ("originate".toList ++ ' ' :: line) = originateSplit line ' ' >>= fromTokens := by
  have htrim : trim (' ' :: line) = line := by
    rw [trim_cons_of_whitespace (by decide)]
    exact h
  rw [fromStr_eq, stripPrefix_append, Option.getD_some, htrim]

theorem fromStr_tokens {tokens : List Str} (h : ∀ t ∈ tokens, IsToken ' ' t) :
    fromStr ("originate".toList ++ ' ' :: [' '].intercalate tokens) = fromTokens tokens := by
  have hsplit : originateSplit ([' '].intercalate tokens) ' ' = .ok tokens :=
    originateSplitLoop_intercalate h (by decide) (by decide)
  rw [fromStr_line (trimmed_intercalate ' ' fun t ht ↦ (h t ht).ne_nil_and_trimmed), hsplit]
  rfl

end Originate

end FreeswitchEsl
