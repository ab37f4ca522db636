import FreeswitchEsl.Lib.Quoting
import FreeswitchEsl.Originate.Tokens

/-!
# Quotes and tokens

The tokenizer is an automaton that remembers the last character and whether a quote
is open.  A token is a trimmed text that closes its quotes and has every separator
inside them, and tokens joined by the separator are split again at the same places.
-/

namespace FreeswitchEsl

open Quoting Text

/-! ## Tokens -/

/-- A text that the tokenizer takes for one token. -/
structure IsToken (sep : Char) (t : Str) : Prop where
  ne_nil : t ≠ []
  trimmed : Trimmed t
  closed : scanToken '\'' '\\' sep t = some false

instance (sep : Char) (t : Str) : Decidable (IsToken sep t) :=
  decidable_of_iff (t ≠ [] ∧ Trimmed t ∧ scanToken '\'' '\\' sep t = some false)
    ⟨fun h ↦ ⟨h.1, h.2.1, h.2.2⟩, fun h ↦ ⟨h.ne_nil, h.trimmed, h.closed⟩⟩

section Tokens

variable {sep : Char} {prev : Option Char} {q q' : Bool} {s t token : Str}

theorem originateSplitLoop_scan (h : scanQuotes '\'' '\\' sep prev q s = some q')
    (token rest : Str) :
    originateSplitLoop sep prev token q (s ++ rest) =
      originateSplitLoop sep (lastRead prev s) (token ++ s) q' rest := by
  induction s generalizing prev q token with
  | nil =>
      obtain rfl : q = q' := Option.some.inj h
      simp
  | cons c s ih =>
      rw [scanQuotes] at h
      split at h
      · cases h
      · rename_i hsep
        have hpush : ¬ (c = sep ∧ q = false ∧ trim token ≠ []) :=
          fun hsplit ↦ hsep ⟨hsplit.1, hsplit.2.1⟩
        rw [List.cons_append, originateSplitLoop, if_neg hpush]
        have hrest := ih h (token ++ [c])
        rw [List.append_assoc, List.singleton_append] at hrest
        exact hrest

theorem originateSplitLoop_scanToken (h : scanToken '\'' '\\' sep t = some q)
    (hprev : prev ≠ some '\\') (rest : Str) :
    originateSplitLoop sep prev [] false (t ++ rest) =
      originateSplitLoop sep (lastRead prev t) t q rest := by
  cases t with
  | nil =>
      obtain rfl : false = q := Option.some.inj h
      rfl
  | cons c s =>
      have htoggled : toggled '\'' '\\' prev c false = toggled '\'' '\\' none c false :=
        toggled_congr (by simp [hprev]) c false
      rw [List.cons_append, originateSplitLoop, if_neg (by simp)]
      change originateSplitLoop sep (some c) ([] ++ [c]) (toggled '\'' '\\' prev c false)
        (s ++ rest) = _
      rw [htoggled, originateSplitLoop_scan h]
      rfl

theorem IsToken.trim_eq (h : IsToken sep t) : trim t = t := h.trimmed

/-- A token at the end of the line. -/
theorem IsToken.split_last (h : IsToken sep t) (hprev : prev ≠ some '\\') :
    originateSplitLoop sep prev [] false t = .ok [t] := by
  have hloop := originateSplitLoop_scanToken h.closed hprev []
  rw [List.append_nil] at hloop
  rw [hloop, originateSplitLoop, h.trim_eq, if_neg h.ne_nil]
  rfl

/-- A token in front of a separator. -/
theorem IsToken.split_cons (h : IsToken sep t) (hprev : prev ≠ some '\\') (rest : Str) :
    originateSplitLoop sep prev [] false (t ++ sep :: rest) =
      (originateSplitLoop sep (some sep) [] false rest).map (t :: ·) := by
  rw [originateSplitLoop_scanToken h.closed hprev, originateSplitLoop, h.trim_eq,
    if_pos ⟨rfl, rfl, h.ne_nil⟩]
  cases originateSplitLoop sep (some sep) [] false rest <;> rfl

/-- Tokens joined by the separator are split again at the same places. -/
theorem originateSplitLoop_intercalate {tokens : List Str} (h : ∀ t ∈ tokens, IsToken sep t)
    (hsep : sep ≠ '\\') (hprev : prev ≠ some '\\') :
    originateSplitLoop sep prev [] false ([sep].intercalate tokens) = .ok tokens := by
  induction tokens generalizing prev with
  | nil => rfl
  | cons t tokens ih =>
      have ht := h t List.mem_cons_self
      by_cases htokens : tokens = []
      · subst htokens
        rw [List.intercalate_singleton]
        exact ht.split_last hprev
      · have hopen : some sep ≠ some '\\' := by simpa using hsep
        have hrest := ih (fun u hu ↦ h u (List.mem_cons_of_mem _ hu)) hopen
        rw [intercalate_cons htokens, ht.split_cons hprev, hrest]
        rfl

/-! ## What the tokenizer returns -/

/-- What the loop knows of the token that it is reading. -/
structure Reading (sep : Char) (prev : Option Char) (q : Bool) (token : Str) : Prop where
  scan : scanToken '\'' '\\' sep (trimStart token) = some q
  prev_iff : prev = some '\\' ↔ lastRead none (trimStart token) = some '\\'

theorem quote_notMem_of_whitespace (h : ∀ c ∈ s, isWhitespace c = true) : '\'' ∉ s :=
  fun hmem ↦ absurd (h _ hmem) (by decide)

theorem trimEnd_append_whitespace (s : Str) :
    ∃ w, s = trimEnd s ++ w ∧ ∀ c ∈ w, isWhitespace c = true := by
  refine ⟨s.rtakeWhile isWhitespace, ?_, fun c hc ↦ List.mem_rtakeWhile_imp hc⟩
  simp [trimEnd, List.rdropWhile, List.rtakeWhile, ← List.reverse_append]

/-- The token that is cut off is trimmed at its end, where no quote can be. -/
theorem Reading.isToken (h : Reading sep prev false token) (hne : trim token ≠ []) :
    IsToken sep (trim token) := by
  refine ⟨hne, trimmed_trim token, ?_⟩
  obtain ⟨w, hw, hspace⟩ := trimEnd_append_whitespace (trimStart token)
  have hscan := h.scan
  have hquote := quoteAfter_of_scanToken hscan
  rw [hw] at hscan hquote
  rw [quoteAfter_append, quoteAfter_of_notMem (quote_notMem_of_whitespace hspace)] at hquote
  rw [trim, scanToken_prefix_eq hscan, hquote]

theorem Reading.push (h : Reading sep prev q token) {c : Char}
    (hsep : ¬ (c = sep ∧ q = false ∧ trim token ≠ [])) :
    Reading sep (some c) (toggled '\'' '\\' prev c q) (token ++ [c]) := by
  have htoggled := @toggled_congr _ _ '\'' _ _ _ h.prev_iff c q
  by_cases hempty : trimStart token = []
  · have hq : q = false := by
      have hscan := h.scan
      rw [hempty] at hscan
      exact (Option.some.inj hscan).symm
    rw [hempty] at htoggled
    by_cases hc : isWhitespace c = true
    · have hnil : trimStart (token ++ [c]) = [] := by
        rw [trimStart_append, if_pos hempty, trimStart_cons, if_pos hc, trimStart_nil]
      have hquote : c ≠ '\'' := by
        rintro rfl
        cases hc
      have hescape : c ≠ '\\' := by
        rintro rfl
        cases hc
      refine ⟨?_, ?_⟩
      · rw [hnil, toggled_of_ne hquote, hq]
        rfl
      · rw [hnil]
        simp [hescape]
    · have hsingle : trimStart (token ++ [c]) = [c] := by
        rw [trimStart_append, if_pos hempty, trimStart_cons, if_neg hc]
      refine ⟨?_, ?_⟩
      · rw [hsingle, htoggled, hq]
        rfl
      · rw [hsingle]
        rfl
  · have hpush : trimStart (token ++ [c]) = trimStart token ++ [c] := by
      rw [trimStart_append, if_neg hempty]
    have hclear : ¬ (c = sep ∧ q = false) := by
      rintro ⟨hc, hq⟩
      apply hsep
      refine ⟨hc, hq, ?_⟩
      exact trim_ne_nil hempty
    refine ⟨?_, ?_⟩
    · rw [hpush, scanToken_append hempty, h.scan, htoggled, Option.bind_some, scanQuotes,
        if_neg hclear]
      rfl
    · rw [hpush, lastRead_append]
      rfl

theorem Reading.nil (hprev : prev ≠ some '\\') : Reading sep prev false [] :=
  ⟨rfl, by simp [hprev]⟩

theorem isToken_of_mem {tokens : List Str} (hsep : sep ≠ '\\') (hreading : Reading sep prev q token)
    (h : originateSplitLoop sep prev token q s = .ok tokens) (ht : t ∈ tokens) :
    IsToken sep t := by
  induction s generalizing prev token q tokens with
  | nil =>
      rw [originateSplitLoop] at h
      split at h
      · cases h
      · rename_i hq
        obtain rfl : q = false := by simpa using hq
        split at h
        · obtain rfl := Except.ok.inj h
          cases ht
        · rename_i hne
          obtain rfl := Except.ok.inj h
          obtain rfl := List.mem_singleton.mp ht
          exact hreading.isToken hne
  | cons c s ih =>
      rw [originateSplitLoop] at h
      split at h
      · rename_i hsplit
        obtain ⟨rfl, rfl, hne⟩ := hsplit
        obtain ⟨rest, hrest, h⟩ := bind_eq_ok.mp h
        obtain rfl := Except.ok.inj h
        rcases List.mem_cons.mp ht with rfl | ht
        · exact hreading.isToken hne
        · exact ih (Reading.nil (by simpa using hsep)) hrest ht
      · rename_i hpush
        exact ih (hreading.push hpush) h ht

/-- Every token that is returned is one. -/
theorem isToken_of_originateSplit {line : Str} {tokens : List Str} (hsep : sep ≠ '\\')
    (h : originateSplit line sep = .ok tokens) (ht : t ∈ tokens) : IsToken sep t :=
  isToken_of_mem hsep (Reading.nil (by simp)) h ht

/-- Lines that are split have an even number of quotes that count. -/
theorem quoteAfter_of_split {tokens : List Str} (hsep : sep = '\'' → Escaped '\\' '\'' prev s)
    (h : originateSplitLoop sep prev token q s = .ok tokens) :
    quoteAfter '\'' '\\' prev q s = false := by
  induction s generalizing prev token q tokens with
  | nil =>
      rw [originateSplitLoop] at h
      split at h
      · cases h
      · rename_i hq
        rw [quoteAfter]
        simpa using hq
  | cons c s ih =>
      rw [originateSplitLoop] at h
      split at h
      · rename_i hsplit
        obtain ⟨rfl, rfl, -⟩ := hsplit
        obtain ⟨rest, hrest, -⟩ := bind_eq_ok.mp h
        rw [quoteAfter, toggled_of_escaped fun hc ↦ (hsep hc).1 hc]
        exact ih (fun hc ↦ (hsep hc).2) hrest
      · exact ih (fun hc ↦ (hsep hc).2) h

/-- The first token is cut off the front. -/
theorem exists_prefix_of_split {tokens : List Str}
    (h : originateSplitLoop sep prev token q s = .ok (t :: tokens)) :
    ∃ u, u <+: s ∧ t = trim (token ++ u) := by
  induction s generalizing prev token q with
  | nil =>
      rw [originateSplitLoop] at h
      split at h
      · cases h
      · split at h
        · cases h
        · cases h
          exact ⟨[], List.prefix_refl _, by rw [List.append_nil]⟩
  | cons c s ih =>
      rw [originateSplitLoop] at h
      split at h
      · obtain ⟨rest, -, h⟩ := bind_eq_ok.mp h
        cases h
        exact ⟨[], List.nil_prefix, by rw [List.append_nil]⟩
      · obtain ⟨u, hu, rfl⟩ := ih h
        refine ⟨c :: u, List.cons_prefix_cons.mpr ⟨rfl, hu⟩, ?_⟩
        rw [List.append_assoc]
        rfl

theorem trim_eq_nil_of_split (h : originateSplitLoop sep prev token q s = .ok []) :
    trim (token ++ s) = [] := by
  induction s generalizing prev token q with
  | nil =>
      rw [originateSplitLoop] at h
      split at h
      · cases h
      · split at h
        · rename_i htrim
          rwa [List.append_nil]
        · cases h
  | cons c s ih =>
      rw [originateSplitLoop] at h
      split at h
      · obtain ⟨rest, -, h⟩ := bind_eq_ok.mp h
        cases h
      · have hrest := ih h
        rwa [List.append_assoc, List.singleton_append] at hrest

/-- Splitting never makes a line longer. -/
theorem length_intercalate_le_of_split {tokens : List Str}
    (h : originateSplitLoop sep prev token q s = .ok tokens) :
    ([sep].intercalate tokens).length ≤ token.length + s.length := by
  have htrim := trim_length_le token
  induction s generalizing prev token q tokens with
  | nil =>
      rw [originateSplitLoop] at h
      split at h
      · cases h
      · split at h
        · obtain rfl := Except.ok.inj h
          exact Nat.zero_le _
        · obtain rfl := Except.ok.inj h
          rw [List.intercalate_singleton]
          exact htrim
  | cons c s ih =>
      rw [originateSplitLoop] at h
      rw [List.length_cons]
      split at h
      · obtain ⟨rest, hrest, h⟩ := bind_eq_ok.mp h
        obtain rfl := Except.ok.inj h
        have hlength := ih hrest (trim_length_le [])
        by_cases hempty : rest = []
        · subst hempty
          rw [List.intercalate_singleton]
          omega
        · rw [intercalate_cons hempty, List.length_append, List.length_cons]
          rw [List.length_nil] at hlength
          omega
      · have hlength := ih h (trim_length_le _)
        rw [List.length_append, List.length_singleton] at hlength
        omega

end Tokens

end FreeswitchEsl
