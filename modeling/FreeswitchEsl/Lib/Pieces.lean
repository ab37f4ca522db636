import FreeswitchEsl.Lib.Quoting

/-!
# Pieces of a text

A text with quotes is cut at the separators outside the quotes.  The pieces are what is
left of it, in order, and each of them has its separators in quotes where it stands.
-/

namespace Quoting

variable {α : Type*} [DecidableEq α] {quote escape sep : α} {prev : Option α} {q q' : Bool}
  {part p s t : List α}

/-! ## Counting quotes -/

/-- The number of quotes with no escape in front of them. -/
def countQuotes (quote escape : α) : Option α → List α → ℕ
  | _, [] => 0
  | prev, c :: s =>
      (if c = quote ∧ prev ≠ some escape then 1 else 0) + countQuotes quote escape (some c) s

/-- A quote is open behind the text if the number of quotes is odd. -/
theorem quoteAfter_eq_xor (prev : Option α) (q : Bool) (s : List α) :
    quoteAfter quote escape prev q s = (q ^^ decide (countQuotes quote escape prev s % 2 = 1)) := by
  induction s generalizing prev q with
  | nil => simp [quoteAfter, countQuotes]
  | cons c s ih =>
      rw [quoteAfter, ih, countQuotes, toggled]
      split
      · rcases Nat.mod_two_eq_zero_or_one (countQuotes quote escape (some c) s) with h | h
        · have hodd : (1 + countQuotes quote escape (some c) s) % 2 = 1 := by omega
          simp [h, hodd]
        · have heven : (1 + countQuotes quote escape (some c) s) % 2 = 0 := by omega
          simp [h, heven]
      · rw [Nat.zero_add]

theorem quoteAfter_eq_true_iff (s : List α) :
    quoteAfter quote escape none false s = true ↔ countQuotes quote escape none s % 2 = 1 := by
  rw [quoteAfter_eq_xor, Bool.false_xor, decide_eq_true_iff]

/-! ## Cutting -/

/-- The text without the separators outside quotes. -/
def withoutSeparators (quote escape sep : α) : Option α → Bool → List α → List α
  | _, _, [] => []
  | prev, inQuote, c :: s =>
      let rest :=
        withoutSeparators quote escape sep (some c) (toggled quote escape prev c inQuote) s
      if c = sep ∧ inQuote = false then rest else c :: rest

/-- The pieces between the separators outside quotes; `part` is what was read of the
first one. -/
def pieces (quote escape sep : α) : Option α → Bool → List α → List α → List (List α)
  | _, _, part, [] => [part]
  | prev, inQuote, part, c :: s =>
      if c = sep ∧ inQuote = false then
        part :: pieces quote escape sep (some c) (toggled quote escape prev c inQuote) [] s
      else
        pieces quote escape sep (some c) (toggled quote escape prev c inQuote) (part ++ [c]) s

theorem pieces_ne_nil : pieces quote escape sep prev q part s ≠ [] := by
  induction s generalizing prev q part with
  | nil => exact List.cons_ne_nil _ _
  | cons c s ih =>
      rw [pieces]
      split
      · exact List.cons_ne_nil _ _
      · exact ih

/-- Nothing but the separators is lost, and the order is kept. -/
theorem flatten_pieces (prev : Option α) (q : Bool) (part s : List α) :
    (pieces quote escape sep prev q part s).flatten =
      part ++ withoutSeparators quote escape sep prev q s := by
  induction s generalizing prev q part with
  | nil => rw [pieces, withoutSeparators, List.flatten_singleton, List.append_nil]
  | cons c s ih =>
      rw [pieces, withoutSeparators]
      split
      · rw [List.flatten_cons, ih, List.nil_append]
      · rw [ih, List.append_assoc, List.singleton_append]

/-- The text has its separators in quotes where it stands in the line. -/
def QuotedIn (quote escape sep : α) (line t : List α) : Prop :=
  ∃ before behind q, line = before ++ t ++ behind ∧
    scanQuotes quote escape sep (lastRead none before) (quoteAfter quote escape none false before)
      t = some q

theorem quotedIn_of_mem_pieces {before : List α}
    (hpart : scanQuotes quote escape sep (lastRead none before)
      (quoteAfter quote escape none false before) part = some q)
    (hp : p ∈ pieces quote escape sep (lastRead none (before ++ part)) q part s) :
    QuotedIn quote escape sep (before ++ part ++ s) p := by
  induction s generalizing before part q with
  | nil =>
      obtain rfl := List.mem_singleton.mp hp
      exact ⟨before, [], q, rfl, hpart⟩
  | cons c s ih =>
      have hquote : quoteAfter quote escape none false (before ++ part) = q := by
        rw [quoteAfter_append, quoteAfter_of_scanQuotes hpart]
      have htoggled : quoteAfter quote escape none false (before ++ part ++ [c]) =
          toggled quote escape (lastRead none (before ++ part)) c q := by
        rw [quoteAfter_append, hquote]
        rfl
      have hline : before ++ part ++ c :: s = before ++ part ++ [c] ++ s := by simp
      rw [pieces] at hp
      split at hp
      · rcases List.mem_cons.mp hp with rfl | hp
        · exact ⟨before, c :: s, q, rfl, hpart⟩
        · have hrest := @ih (toggled quote escape (lastRead none (before ++ part)) c q) []
            (before ++ part ++ [c]) (by rw [htoggled]; rfl)
          rw [List.append_nil, lastRead_append (t := [c])] at hrest
          rw [hline]
          exact hrest hp
      · rename_i hsep
        have hpush : scanQuotes quote escape sep (lastRead none before)
            (quoteAfter quote escape none false before) (part ++ [c]) =
              some (toggled quote escape (lastRead none (before ++ part)) c q) := by
          rw [scanQuotes_append, hpart, Option.bind_some, scanQuotes, if_neg hsep,
            ← lastRead_append]
          rfl
        have hrest := ih hpush
        rw [← List.append_assoc, lastRead_append (t := [c])] at hrest
        rw [hline]
        exact hrest hp

theorem QuotedIn.infix {line u v : List α} (h : QuotedIn quote escape sep line (u ++ t ++ v)) :
    QuotedIn quote escape sep line t := by
  obtain ⟨before, behind, q, rfl, hscan⟩ := h
  have hprefix := scanQuotes_prefix_eq hscan
  rw [scanQuotes_append] at hprefix
  cases hu : scanQuotes quote escape sep (lastRead none before)
      (quoteAfter quote escape none false before) u with
  | none =>
      rw [hu] at hprefix
      cases hprefix
  | some q' =>
      rw [hu, Option.bind_some, ← quoteAfter_of_scanQuotes hu, ← quoteAfter_append,
        ← lastRead_append] at hprefix
      exact ⟨before ++ u, v ++ behind, _, by simp, hprefix⟩

end Quoting
