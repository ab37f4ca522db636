import FreeswitchEsl.Originate.Line

/-!
# Quoted tokens

Tokens are quoted where they have a space, joined by spaces, split again and unquoted.
A quote that stays open runs into the next token, which then is not the one that was
written.
-/

namespace FreeswitchEsl

open Quoting Text

/-! ## Open quotes at the end of a token -/

section Open

variable {sep : Char} {prev : Option Char} {token s t w : Str} {tokens : List Str}

/-- A token with an open quote goes on at least to the next quote. -/
theorem exists_of_split_open (h : originateSplitLoop sep prev token true s = .ok tokens) :
    ∃ u rest, tokens = trim (token ++ u) :: rest ∧ u <+: s ∧ '\'' ∈ u := by
  induction s generalizing prev token with
  | nil => cases h
  | cons c s ih =>
      rw [originateSplitLoop, if_neg (by simp)] at h
      by_cases hquote : c = '\'' ∧ prev ≠ some '\\'
      · obtain ⟨rfl, hprev⟩ := hquote
        rw [if_pos ⟨rfl, hprev⟩] at h
        cases tokens with
        | nil =>
            have hempty := trim_eq_nil_of_split h
            have hmem : '\'' ∈ trim (token ++ ['\''] ++ s) :=
              mem_trim (by decide) (by simp)
            rw [hempty] at hmem
            cases hmem
        | cons first rest =>
            obtain ⟨u, hu, rfl⟩ := exists_prefix_of_split h
            refine ⟨'\'' :: u, rest, ?_, ?_, List.mem_cons_self⟩
            · rw [List.append_assoc, List.singleton_append]
            · exact List.cons_prefix_cons.mpr ⟨rfl, hu⟩
      · rw [if_neg hquote] at h
        obtain ⟨u, rest, rfl, hu, hmem⟩ := ih h
        refine ⟨c :: u, rest, ?_, ?_, List.mem_cons_of_mem _ hmem⟩
        · rw [List.append_assoc, List.singleton_append]
        · exact List.cons_prefix_cons.mpr ⟨rfl, hu⟩

/-- What an open token has become behind the separator of the line. -/
theorem trim_open (ht : Trimmed t) (hne : t ≠ []) (hw : w <+: ' ' :: s) (hquote : '\'' ∈ w) :
    ∃ w', w' ≠ [] ∧ trim (t ++ w) = t ++ ' ' :: w' := by
  obtain ⟨c, w, rfl⟩ := List.exists_cons_of_ne_nil (List.ne_nil_of_mem hquote)
  obtain ⟨rfl, -⟩ := List.cons_prefix_cons.mp hw
  have hmem : '\'' ∈ w := by simpa using hquote
  have hend : trimEnd w ≠ [] := List.ne_nil_of_mem (mem_trimEnd (by decide) hmem)
  have hspace : trimEnd (' ' :: w) = ' ' :: trimEnd w := by
    rw [← List.singleton_append, trimEnd_append, if_neg hend, List.singleton_append]
  refine ⟨trimEnd w, hend, ?_⟩
  rw [trim, trimStart_append, ht.trimStart_eq, if_neg hne, trimEnd_append, hspace,
    if_neg (List.cons_ne_nil _ _)]

end Open

/-! ## Tokens that are read back -/

/-- A text that is read back when it is quoted where it has a space: a backslash does not
hide the closing quote, and a text that is not quoted closes its own quotes and is not
between two of them. -/
def Quotable (t : Str) : Prop :=
  if ' ' ∈ t then t.getLast? ≠ some '\\'
  else quoteAfter '\'' '\\' none false t = false ∧
    ¬ (t.head? = some '\'' ∧ t.getLast? = some '\'')

instance (t : Str) : Decidable (Quotable t) :=
  inferInstanceAs (Decidable (if ' ' ∈ t then _ else _))

section Quotable

variable {t w : Str} {tokens parts : List Str} {prev : Option Char}

theorem originateUnquote_eq_self_iff :
    originateUnquote t = t ↔ ¬ ∃ inner, t = '\'' :: inner ++ ['\''] := by
  constructor
  · rintro h ⟨inner, rfl⟩
    have hlength := length_originateUnquote_lt inner
    rw [h] at hlength
    exact absurd hlength (lt_irrefl _)
  · intro h
    by_cases hhead : t.head? = some '\''
    · obtain ⟨rest, rfl⟩ := List.head?_eq_some_iff.mp hhead
      have hlast : rest.getLast? ≠ some '\'' := by
        intro hlast
        obtain ⟨inner, rfl⟩ := List.getLast?_eq_some_iff.mp hlast
        exact h ⟨inner, rfl⟩
      rw [originateUnquote, stripPrefix_cons, Option.bind_some, stripSuffix_of_getLast?_ne hlast]
    · exact originateUnquote_of_head?_ne hhead

/-- A text that closes its quotes is more than one quote. -/
theorem wrapped_iff (hclosed : quoteAfter '\'' '\\' none false t = false) :
    (∃ inner, t = '\'' :: inner ++ ['\'']) ↔ t.head? = some '\'' ∧ t.getLast? = some '\'' := by
  constructor
  · rintro ⟨inner, rfl⟩
    exact ⟨rfl, List.getLast?_concat⟩
  · rintro ⟨hhead, hlast⟩
    obtain ⟨rest, rfl⟩ := List.head?_eq_some_iff.mp hhead
    cases rest with
    | nil => cases hclosed
    | cons c rest =>
        rw [List.getLast?_cons_cons] at hlast
        obtain ⟨inner, hinner⟩ := List.getLast?_eq_some_iff.mp hlast
        exact ⟨inner, congrArg _ hinner⟩

/-- The two things that a text needs to be read back. -/
theorem quotable_iff :
    Quotable t ↔ quoteAfter '\'' '\\' none false (originateQuote t) = false ∧
      originateUnquote (originateQuote t) = t := by
  rw [Quotable, quoteAfter_originateQuote]
  by_cases hspace : ' ' ∈ t
  · simp [hspace, originateUnquote_originateQuote_of_mem hspace]
  · rw [if_neg hspace, if_neg hspace, originateQuote_of_notMem hspace]
    refine and_congr_right fun hclosed ↦ ?_
    rw [originateUnquote_eq_self_iff, wrapped_iff hclosed]

theorem length_le_originateQuote (t : Str) : t.length ≤ (originateQuote t).length := by
  by_cases hspace : ' ' ∈ t
  · have hle := length_unescapeItem_le '\\' '\'' (escapeItem '\\' '\'' t)
    rw [unescapeItem_escapeItem (by decide)] at hle
    rw [originateQuote_of_mem hspace, List.length_append, List.length_cons]
    omega
  · rw [originateQuote_of_notMem hspace]

/-- A token that ran into the next one is not read back. -/
theorem originateUnquote_open_ne
    (hopen : quoteAfter '\'' '\\' none false (originateQuote t) = true) (hw : w ≠ []) :
    originateUnquote (originateQuote t ++ ' ' :: w) ≠ t := by
  intro h
  by_cases hwrapped : ∃ inner, originateQuote t ++ ' ' :: w = '\'' :: inner ++ ['\'']
  · obtain ⟨inner, hinner⟩ := hwrapped
    rw [hinner, originateUnquote_wrapped] at h
    by_cases hspace : ' ' ∈ t
    · rw [quoteAfter_originateQuote, if_pos hspace, decide_eq_true_iff] at hopen
      obtain ⟨t', rfl⟩ := List.getLast?_eq_some_iff.mp hopen
      -- the quote behind the last backslash is taken for an escaped one
      have hshape : originateQuote (t' ++ ['\\']) ++ ' ' :: w =
          '\'' :: (escapeItem '\\' '\'' t' ++ '\\' :: '\'' :: ' ' :: w) := by
        rw [originateQuote_of_mem hspace, escapeItem_append]
        simp [escapeItem]
      have hback := @unescapeItem_escapeItem_append _ _ '\\' '\'' t'
        ('\\' :: '\'' :: ' ' :: w.dropLast) (by decide) (by simp)
      have hrest : inner = escapeItem '\\' '\'' t' ++ '\\' :: '\'' :: ' ' :: w.dropLast := by
        rw [hshape] at hinner
        have htail := congrArg List.dropLast (List.cons.inj hinner).2
        change _ = (inner ++ ['\'']).dropLast at htail
        rw [List.dropLast_concat] at htail
        rw [← htail, List.dropLast_append_of_ne_nil (List.cons_ne_nil _ _),
          List.dropLast_cons_cons, List.dropLast_cons_cons, List.dropLast_cons_of_ne_nil hw]
      rw [← hrest, h] at hback
      have hquote := List.append_cancel_left hback
      rw [unescapeItem, if_pos ⟨rfl, rfl⟩] at hquote
      cases hquote
    · rw [originateQuote_of_notMem hspace] at hinner
      have hmem : ' ' ∈ '\'' :: inner ++ ['\''] := by
        rw [← hinner]
        simp
      have hinnermem : ' ' ∈ inner := by simpa using hmem
      apply hspace
      rw [← h]
      exact mem_unescapeItem (by decide) hinnermem
  · rw [originateUnquote_eq_self_iff.mpr hwrapped] at h
    have hlength := congrArg List.length h
    have hle := length_le_originateQuote t
    rw [List.length_append, List.length_cons] at hlength
    omega

/-- The first part of the line is the first token, closed and read back. -/
theorem quotable_of_split (hne : t ≠ []) (ht : Trimmed t) (hprev : prev ≠ some '\\')
    (h : originateSplitLoop ' ' prev [] false
      ([' '].intercalate (originateQuote t :: tokens)) = .ok parts)
    (hback : parts.head?.map originateUnquote = some t) : Quotable t := by
  have hquoted := trimmed_originateQuote ht
  have hquotedne := originateQuote_ne_nil hne
  have hscan := scanToken_originateQuote t
  cases hclosed : quoteAfter '\'' '\\' none false (originateQuote t) with
  | false =>
      have htoken := (isToken_originateQuote_iff hne ht).mpr hclosed
      refine quotable_iff.mpr ⟨hclosed, ?_⟩
      by_cases htokens : tokens = []
      · subst htokens
        rw [List.intercalate_singleton, htoken.split_last hprev] at h
        obtain rfl := Except.ok.inj h
        exact Option.some.inj hback
      · rw [intercalate_cons htokens, htoken.split_cons hprev] at h
        obtain ⟨rest, -, rfl⟩ := map_eq_ok.mp h
        exact Option.some.inj hback
  | true =>
      rw [hclosed] at hscan
      by_cases htokens : tokens = []
      · subst htokens
        have hloop := originateSplitLoop_scanToken hscan hprev []
        rw [List.append_nil] at hloop
        rw [List.intercalate_singleton, hloop] at h
        cases h
      · rw [intercalate_cons htokens, originateSplitLoop_scanToken hscan hprev] at h
        obtain ⟨u, rest, rfl, hu, hmem⟩ := exists_of_split_open h
        obtain ⟨w, hw, htrim⟩ := trim_open hquoted hquotedne hu hmem
        rw [htrim] at hback
        exact absurd (Option.some.inj hback) (originateUnquote_open_ne hclosed hw)

theorem forall_quotable_of_split (htokens : ∀ t ∈ tokens, t ≠ [] ∧ Trimmed t)
    (hprev : prev ≠ some '\\')
    (h : originateSplitLoop ' ' prev [] false
      ([' '].intercalate (tokens.map originateQuote)) = .ok parts)
    (hback : parts.map originateUnquote = tokens) : ∀ t ∈ tokens, Quotable t := by
  induction tokens generalizing prev parts with
  | nil => nofun
  | cons t tokens ih =>
      obtain ⟨hne, ht⟩ := htokens t List.mem_cons_self
      have hfirst : Quotable t := by
        apply quotable_of_split hne ht hprev h
        rw [← List.head?_map, hback, List.head?_cons]
      have htoken := (isToken_originateQuote_iff hne ht).mpr (quotable_iff.mp hfirst).1
      have hrest : ∀ u ∈ tokens, Quotable u := by
        by_cases hempty : tokens = []
        · rw [hempty]
          nofun
        · rw [List.map_cons, intercalate_cons (by simpa using hempty),
            htoken.split_cons hprev] at h
          obtain ⟨rest, hrest, rfl⟩ := map_eq_ok.mp h
          apply ih (fun u hu ↦ htokens u (List.mem_cons_of_mem _ hu)) (by decide) hrest
          exact (List.cons.inj hback).2
      intro u hu
      rcases List.mem_cons.mp hu with rfl | hu
      · exact hfirst
      · exact hrest u hu

/-- Tokens are split where they were joined and read back exactly when each of them is
read back by itself. -/
theorem split_originateQuote_iff (htokens : ∀ t ∈ tokens, t ≠ [] ∧ Trimmed t) :
    (∃ parts, originateSplit ([' '].intercalate (tokens.map originateQuote)) ' ' = .ok parts ∧
      parts.length = tokens.length ∧ parts.map originateUnquote = tokens) ↔
      ∀ t ∈ tokens, Quotable t := by
  constructor
  · rintro ⟨parts, hsplit, -, hback⟩
    exact forall_quotable_of_split htokens (by decide) hsplit hback
  · intro hquotable
    have htoken : ∀ t ∈ tokens.map originateQuote, IsToken ' ' t := by
      intro quoted hquoted
      obtain ⟨t, ht, rfl⟩ := List.mem_map.mp hquoted
      obtain ⟨hne, htrim⟩ := htokens t ht
      exact (isToken_originateQuote_iff hne htrim).mpr (quotable_iff.mp (hquotable t ht)).1
    refine ⟨_, originateSplitLoop_intercalate htoken (by decide) (by decide), ?_, ?_⟩
    · exact List.length_map originateQuote
    · calc (tokens.map originateQuote).map originateUnquote
          = tokens.map (originateUnquote ∘ originateQuote) := List.map_map
        _ = tokens.map id :=
          List.map_congr_left fun t ht ↦ (quotable_iff.mp (hquotable t ht)).2
        _ = tokens := List.map_id tokens

theorem split_originateQuote_iff_note :
    (∃ parts, originateSplit
        ([' '].intercalate (["it's".toList, "a test".toList].map originateQuote)) ' ' = .ok parts ∧
      parts.length = 2 ∧ parts.map originateUnquote = ["it's".toList, "a test".toList]) ↔
      ∀ t ∈ ["it's".toList, "a test".toList], Quotable t :=
  split_originateQuote_iff (by decide)

example : Quotable "it's a test".toList ∧ ¬ Quotable "it's".toList := by decide

theorem not_split_originateQuote :
    ¬ ∀ tokens : List Str, tokens ≠ [] → (∀ t ∈ tokens, t ≠ [] ∧ Trimmed t) →
      ∃ parts, originateSplit ([' '].intercalate (tokens.map originateQuote)) ' ' = .ok parts ∧
        parts.length = tokens.length ∧ parts.map originateUnquote = tokens := by
  intro h
  obtain ⟨parts, hparts, -⟩ := h ["a b\\".toList] (List.cons_ne_nil _ _) (by decide)
  have hopen : (originateSplit
      ([' '].intercalate (["a b\\".toList].map originateQuote)) ' ').toOption = none := by
    decide +kernel
  rw [hparts] at hopen
  cases hopen

end Quotable

end FreeswitchEsl
