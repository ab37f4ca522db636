import FreeswitchEsl.Lib.Pieces
import FreeswitchEsl.Originate.Scan

/-!
# What the tokenizer keeps

The tokenizer cuts the line at the separators outside quotes.  It passes over those that
nothing but whitespace stands in front of, and puts them into the next token.  This does no
harm if the separator is whitespace itself.
-/

namespace FreeswitchEsl

open Quoting Text

/-! ## Characters that are no whitespace -/

/-- The characters that are no whitespace. -/
def visible (s : Str) : Str := s.filter fun c ↦ !isWhitespace c

section Visible

variable {c : Char} {s t : Str}

theorem visible_append (s t : Str) : visible (s ++ t) = visible s ++ visible t :=
  List.filter_append s t

theorem visible_of_whitespace (h : ∀ c ∈ s, isWhitespace c = true) : visible s = [] := by
  apply List.filter_eq_nil_iff.mpr
  intro c hc
  simp [h c hc]

theorem visible_singleton (h : isWhitespace c = false) : visible [c] = [c] := by
  simp [visible, h]

theorem exists_trim (s : Str) : ∃ u v, s = u ++ trim s ++ v ∧
    (∀ c ∈ u, isWhitespace c = true) ∧ ∀ c ∈ v, isWhitespace c = true := by
  obtain ⟨v, hv, hspace⟩ := trimEnd_append_whitespace (trimStart s)
  refine ⟨s.takeWhile isWhitespace, v, ?_, fun c hc ↦ List.mem_takeWhile_imp hc, hspace⟩
  rw [List.append_assoc, trim, ← hv]
  exact List.takeWhile_append_dropWhile.symm

theorem visible_trim (s : Str) : visible (trim s) = visible s := by
  obtain ⟨u, v, hs, hu, hv⟩ := exists_trim s
  conv_rhs => rw [hs]
  rw [visible_append, visible_append, visible_of_whitespace hu, visible_of_whitespace hv,
    List.nil_append, List.append_nil]

theorem trim_append_of_blank (h : ∀ c ∈ s, isWhitespace c = true) (t : Str) :
    trim (s ++ t) = trim t := by
  have hstart : trimStart s = [] := List.dropWhile_eq_nil_iff.mpr h
  rw [trim, trimStart_append, if_pos hstart, trim]

theorem trim_eq_nil_iff : trim s = [] ↔ ∀ c ∈ s, isWhitespace c = true := by
  constructor
  · intro h
    obtain ⟨u, v, hs, hu, hv⟩ := exists_trim s
    rw [h, List.append_nil] at hs
    rw [hs]
    intro c hc
    rcases List.mem_append.mp hc with hc | hc
    · exact hu c hc
    · exact hv c hc
  · intro h
    have happend := trim_append_of_blank h []
    rwa [List.append_nil] at happend

end Visible

/-! ## The tokens are the pieces of the line -/

section Pieces

variable {sep : Char} {prev : Option Char} {q : Bool} {blank part token s : Str}
  {tokens : List Str}

/-- The pieces of the line without those that are blank. -/
def trimmedPieces (pieces : List Str) : List Str := (pieces.map trim).filter fun p ↦ p ≠ []

theorem trimmedPieces_cons_of_blank (h : trim part = []) (pieces : List Str) :
    trimmedPieces (part :: pieces) = trimmedPieces pieces := by
  simp [trimmedPieces, h]

theorem trimmedPieces_cons_of_ne (h : trim part ≠ []) (pieces : List Str) :
    trimmedPieces (part :: pieces) = trim part :: trimmedPieces pieces := by
  simp [trimmedPieces, h]

/-- The loop returns the pieces of the line, trimmed, if every separator that it passes over
is trimmed away again. -/
theorem originateSplitLoop_pieces (hsep : sep = '\'' → Escaped '\\' '\'' prev s)
    (hblank : ∀ c ∈ blank, isWhitespace c = true)
    (hpass : isWhitespace sep = true ∨
      ∀ p ∈ (pieces '\'' '\\' sep prev q part s).dropLast, trim p ≠ [])
    (hclosed : quoteAfter '\'' '\\' prev q s = false) :
    originateSplitLoop sep prev (blank ++ part) q s =
      .ok (trimmedPieces (pieces '\'' '\\' sep prev q part s)) := by
  induction s generalizing prev q blank part with
  | nil =>
      have htoken := trim_append_of_blank hblank part
      obtain rfl : q = false := hclosed
      rw [originateSplitLoop, htoken, pieces]
      by_cases hempty : trim part = []
      · rw [trimmedPieces_cons_of_blank hempty, if_pos hempty]
        rfl
      · rw [trimmedPieces_cons_of_ne hempty, if_neg hempty]
        rfl
  | cons c s ih =>
      have htoken := trim_append_of_blank hblank part
      have hneutral : sep = '\'' → Escaped '\\' '\'' (some c) s := fun hc ↦ (hsep hc).2
      rw [originateSplitLoop, htoken]
      rw [pieces] at hpass ⊢
      rw [quoteAfter] at hclosed
      by_cases hcut : c = sep ∧ q = false
      · rw [if_pos hcut] at hpass ⊢
        obtain ⟨rfl, rfl⟩ := hcut
        rw [toggled_of_escaped fun hc ↦ (hsep hc).1 hc] at hpass hclosed ⊢
        by_cases hempty : trim part = []
        · -- the separator goes into the next token, in front of it
          rcases hpass with hspace | hnone
          · have hpushed : ∀ d ∈ blank ++ part ++ [c], isWhitespace d = true := by
              intro d hd
              rcases List.mem_append.mp hd with hd | hd
              · rcases List.mem_append.mp hd with hd | hd
                · exact hblank d hd
                · exact trim_eq_nil_iff.mp hempty d hd
              · rw [List.mem_singleton.mp hd]
                exact hspace
            have hrest := @ih (some c) false (blank ++ part ++ [c]) [] hneutral hpushed
              (Or.inl hspace) hclosed
            rw [List.append_nil] at hrest
            rw [if_neg fun h ↦ h.2.2 hempty,
              if_neg fun h ↦ h.2 ((hsep h.1).1 h.1), hrest,
              trimmedPieces_cons_of_blank hempty]
          · exact absurd hempty (hnone part (by
              rw [List.dropLast_cons_of_ne_nil pieces_ne_nil]
              exact List.mem_cons_self))
        · have htail : isWhitespace c = true ∨ ∀ p ∈
              (pieces '\'' '\\' c (some c) false [] s).dropLast, trim p ≠ [] := by
            refine hpass.imp_right fun hnone p hp ↦ hnone p ?_
            rw [List.dropLast_cons_of_ne_nil pieces_ne_nil]
            exact List.mem_cons_of_mem _ hp
          have hrest := @ih (some c) false [] [] hneutral (List.forall_mem_nil _) htail hclosed
          rw [List.append_nil] at hrest
          rw [if_pos ⟨rfl, rfl, hempty⟩, hrest, trimmedPieces_cons_of_ne hempty]
          rfl
      · rw [if_neg hcut] at hpass ⊢
        have hrest := @ih (some c) (toggled '\'' '\\' prev c q) blank (part ++ [c]) hneutral hblank
          hpass hclosed
        rw [← List.append_assoc] at hrest
        rw [if_neg fun h ↦ hcut ⟨h.1, h.2.1⟩]
        exact hrest

/-- Nothing but an open quote is an error. -/
theorem exists_split_of_closed (hsep : sep = '\'' → Escaped '\\' '\'' prev s)
    (hclosed : quoteAfter '\'' '\\' prev q s = false) (token : Str) :
    ∃ tokens, originateSplitLoop sep prev token q s = .ok tokens := by
  induction s generalizing prev q token with
  | nil =>
      obtain rfl : q = false := hclosed
      rw [originateSplitLoop]
      by_cases hempty : trim token = []
      · exact ⟨[], if_pos hempty⟩
      · exact ⟨[trim token], if_neg hempty⟩
  | cons c s ih =>
      rw [originateSplitLoop]
      by_cases hcut : c = sep ∧ q = false ∧ trim token ≠ []
      · rw [if_pos hcut]
        obtain ⟨rfl, rfl, -⟩ := hcut
        rw [quoteAfter, toggled_of_escaped fun hc ↦ (hsep hc).1 hc] at hclosed
        obtain ⟨rest, hrest⟩ := ih (fun hc ↦ (hsep hc).2) hclosed []
        exact ⟨_, bind_eq_ok.mpr ⟨rest, hrest, rfl⟩⟩
      · rw [if_neg hcut]
        exact ih (fun hc ↦ (hsep hc).2) hclosed _

/-- Nothing visible is lost but separators. -/
theorem length_visible_le (hsep : sep = '\'' → Escaped '\\' '\'' prev s)
    (h : originateSplitLoop sep prev token q s = .ok tokens) :
    (visible token).length + (visible (withoutSeparators '\'' '\\' sep prev q s)).length ≤
      (visible tokens.flatten).length := by
  induction s generalizing prev q token tokens with
  | nil =>
      rw [originateSplitLoop] at h
      split at h
      · cases h
      · split at h
        · rename_i hempty
          obtain rfl := Except.ok.inj h
          rw [← visible_trim, hempty]
          exact le_refl _
        · obtain rfl := Except.ok.inj h
          rw [List.flatten_singleton, visible_trim]
          exact le_refl _
  | cons c s ih =>
      rw [originateSplitLoop] at h
      rw [withoutSeparators]
      split at h
      · rename_i hcut
        obtain ⟨rfl, rfl, -⟩ := hcut
        obtain ⟨rest, hrest, h⟩ := bind_eq_ok.mp h
        obtain rfl := Except.ok.inj h
        have hlength := ih (fun hc ↦ (hsep hc).2) hrest
        rw [if_pos ⟨rfl, rfl⟩, toggled_of_escaped fun hc ↦ (hsep hc).1 hc,
          List.flatten_cons, visible_append, visible_trim, List.length_append]
        exact Nat.add_le_add_left ((Nat.le_add_left _ _).trans hlength) _
      · have hlength := ih (fun hc ↦ (hsep hc).2) h
        rw [visible_append, List.length_append] at hlength
        split
        · exact (Nat.add_le_add_right (Nat.le_add_right _ _) _).trans hlength
        · rw [← List.singleton_append, visible_append, List.length_append, ← Nat.add_assoc]
          exact hlength

/-- If nothing but separators is lost and they are visible, then none of them stands behind
a blank piece. -/
theorem forall_ne_nil_of_visible_eq (hsep : sep = '\'' → Escaped '\\' '\'' prev s)
    (hspace : isWhitespace sep = false)
    (h : originateSplitLoop sep prev part q s = .ok tokens)
    (heq : (visible tokens.flatten).length =
      (visible part).length + (visible (withoutSeparators '\'' '\\' sep prev q s)).length) :
    ∀ p ∈ (pieces '\'' '\\' sep prev q part s).dropLast, trim p ≠ [] := by
  induction s generalizing prev q part tokens with
  | nil => nofun
  | cons c s ih =>
      rw [originateSplitLoop] at h
      rw [withoutSeparators] at heq
      rw [pieces]
      by_cases hcut : c = sep ∧ q = false
      · rw [if_pos hcut] at heq ⊢
        obtain ⟨rfl, rfl⟩ := hcut
        rw [toggled_of_escaped fun hc ↦ (hsep hc).1 hc] at heq ⊢
        rw [List.dropLast_cons_of_ne_nil pieces_ne_nil]
        by_cases hempty : trim part = []
        · rw [if_neg fun h ↦ h.2.2 hempty] at h
          have hlength := length_visible_le (fun hc ↦ (hsep hc).2) h
          rw [if_neg fun h ↦ h.2 ((hsep h.1).1 h.1), visible_append, visible_singleton hspace,
            List.length_append, List.length_singleton] at hlength
          omega
        · rw [if_pos ⟨rfl, rfl, hempty⟩] at h
          obtain ⟨rest, hrest, h⟩ := bind_eq_ok.mp h
          obtain rfl := Except.ok.inj h
          rw [List.flatten_cons, visible_append, visible_trim, List.length_append] at heq
          have hlength := Nat.add_left_cancel heq
          have htail := ih (fun hc ↦ (hsep hc).2) hrest (hlength.trans (Nat.zero_add _).symm)
          intro p hp
          rcases List.mem_cons.mp hp with rfl | hp
          · exact hempty
          · exact htail p hp
      · rw [if_neg hcut] at heq ⊢
        rw [if_neg fun h ↦ hcut ⟨h.1, h.2.1⟩] at h
        apply ih (fun hc ↦ (hsep hc).2) h
        rw [heq, visible_append, List.length_append, ← List.singleton_append, visible_append,
          List.length_append, Nat.add_assoc]
        rfl

theorem visible_trimmedPieces (l : List Str) :
    visible (trimmedPieces l).flatten = visible l.flatten := by
  induction l with
  | nil => rfl
  | cons p l ih =>
      rw [List.flatten_cons, visible_append, ← ih]
      by_cases hempty : trim p = []
      · rw [trimmedPieces_cons_of_blank hempty, visible_of_whitespace (trim_eq_nil_iff.mp hempty),
          List.nil_append]
      · rw [trimmedPieces_cons_of_ne hempty, List.flatten_cons, visible_append, visible_trim]

theorem of_mem_trimmedPieces {t : Str} {l : List Str} (h : t ∈ trimmedPieces l) :
    t ≠ [] ∧ Trimmed t ∧ ∃ p ∈ l, t = trim p := by
  obtain ⟨hmem, hne⟩ := List.mem_filter.mp h
  obtain ⟨p, hp, rfl⟩ := List.mem_map.mp hmem
  exact ⟨by simpa using hne, trimmed_trim p, p, hp, rfl⟩

end Pieces

/-! ## Exactness -/

section Exact

variable {sep : Char} {line : Str}

/-- What is expected of the tokenizer: it fails only for an odd number of quotes; its tokens
are trimmed and have the separators in quotes, and no other visible character is lost. -/
structure ExactSplit (sep : Char) (line : Str) (r : OriginateResult (List Str)) : Prop where
  error_iff : (∃ e, r = .error e) ↔ countQuotes '\'' '\\' none line % 2 = 1
  token : ∀ tokens, r = .ok tokens →
    ∀ t ∈ tokens, t ≠ [] ∧ Trimmed t ∧ QuotedIn '\'' '\\' sep line t
  visible : ∀ tokens, r = .ok tokens →
    visible tokens.flatten = visible (withoutSeparators '\'' '\\' sep none false line)

theorem error_iff_odd (hsep : sep = '\'' → Escaped '\\' '\'' none line) :
    (∃ e, originateSplit line sep = .error e) ↔ countQuotes '\'' '\\' none line % 2 = 1 := by
  rw [← quoteAfter_eq_true_iff]
  constructor
  · rintro ⟨e, he⟩
    by_contra hclosed
    obtain ⟨tokens, htokens⟩ := exists_split_of_closed hsep (by simpa using hclosed) []
    rw [originateSplit, htokens] at he
    cases he
  · intro hopen
    cases hr : originateSplit line sep with
    | error e => exact ⟨e, rfl⟩
    | ok tokens =>
        rw [quoteAfter_of_split hsep hr] at hopen
        cases hopen

/-- No separator outside quotes stands at the start of the line or right behind another. -/
def NoneBlank (sep : Char) (line : Str) : Prop :=
  ∀ p ∈ (pieces '\'' '\\' sep none false [] line).dropLast, trim p ≠ []

theorem split_eq_pieces {tokens : List Str}
    (hsep : sep = '\'' → Escaped '\\' '\'' none line)
    (hpass : isWhitespace sep = true ∨ countQuotes '\'' '\\' none line % 2 = 1 ∨
      NoneBlank sep line) (h : originateSplit line sep = .ok tokens) :
    tokens = trimmedPieces (pieces '\'' '\\' sep none false [] line) := by
  have hclosed := quoteAfter_of_split hsep h
  have hnone : isWhitespace sep = true ∨ NoneBlank sep line := by
    refine hpass.imp_right fun hrest ↦ hrest.resolve_left fun hodd ↦ ?_
    rw [(quoteAfter_eq_true_iff line).mpr hodd] at hclosed
    cases hclosed
  have hblank : ∀ c ∈ [], isWhitespace c = true := nofun
  have hpieces := originateSplitLoop_pieces hsep hblank hnone hclosed
  rw [originateSplit] at h
  exact Except.ok.inj (h.symm.trans hpieces)

/-- The tokenizer is exact if the separator is whitespace, if the line cannot be split, or if
no piece in front of a separator is blank. -/
theorem exactSplit_iff (hsep : sep = '\'' → Escaped '\\' '\'' none line) :
    ExactSplit sep line (originateSplit line sep) ↔
      isWhitespace sep = true ∨ countQuotes '\'' '\\' none line % 2 = 1 ∨
        NoneBlank sep line := by
  constructor
  · intro h
    by_cases hspace : isWhitespace sep = true
    · exact Or.inl hspace
    · refine Or.inr ?_
      cases hr : originateSplit line sep with
      | error e => exact Or.inl (h.error_iff.mp ⟨e, hr⟩)
      | ok tokens =>
          refine Or.inr (forall_ne_nil_of_visible_eq hsep (by simpa using hspace) hr ?_)
          rw [h.visible tokens hr]
          exact (Nat.zero_add _).symm
  · intro hpass
    refine ⟨error_iff_odd hsep, ?_, ?_⟩
    · intro tokens htokens t ht
      rw [split_eq_pieces hsep hpass htokens] at ht
      obtain ⟨hne, htrim, p, hp, rfl⟩ := of_mem_trimmedPieces ht
      refine ⟨hne, htrim, ?_⟩
      obtain ⟨u, v, hsurround, -⟩ := exists_trim p
      have hplace : QuotedIn '\'' '\\' sep line p :=
        @quotedIn_of_mem_pieces _ _ '\'' '\\' sep false [] p line [] rfl hp
      rw [hsurround] at hplace
      exact hplace.infix
    · intro tokens htokens
      rw [split_eq_pieces hsep hpass htokens, visible_trimmedPieces, flatten_pieces]
      rfl

theorem exactSplit_iff_list :
    ExactSplit ',' "a:'1,2',b:".toList (originateSplit "a:'1,2',b:".toList ',') ↔
      isWhitespace ',' = true ∨ countQuotes '\'' '\\' none "a:'1,2',b:".toList % 2 = 1 ∨
        NoneBlank ',' "a:'1,2',b:".toList :=
  exactSplit_iff fun hsep ↦ absurd hsep (by decide)

theorem not_exactSplit_repeated :
    ¬ ∀ (sep : Char) (line : Str), ExactSplit sep line (originateSplit line sep) := by
  intro h
  have hsplit : originateSplit "a,,b".toList ',' = .ok ["a".toList, ",b".toList] := by
    decide +kernel
  have hvisible := (h ',' "a,,b".toList).visible _ hsplit
  revert hvisible
  decide

end Exact

end FreeswitchEsl
