import FreeswitchEsl.Originate.Variables

/-!
# Dial strings

An endpoint that was read is written back as its variables and its URI.  It is read
again if the variables are, and it is one token if the quotes of the variables and of
the URI close.
-/

namespace FreeswitchEsl

open Quoting Text

/-! ## Quotes of the variables -/

/-- Scan a value as it is written: one with a space is quoted. -/
def valueQuotes (inQuote : Bool) (value : Str) : Option Bool :=
  if ' ' ∈ value then
    if inQuote then none else some (decide (value.getLast? = some '\\'))
  else some inQuote

def variableQuotes (inQuote : Bool) (p : Str × Str) : Option Bool :=
  (scanQuotes '\'' '\\' ' ' none inQuote p.1).bind fun inQuote ↦ valueQuotes inQuote p.2

/-- Every space of the dial string is in quotes, and all quotes are closed. -/
def QuotesClose (v : Variables) (uri : Str) : Prop :=
  ((v.inner.foldlM variableQuotes false).bind fun inQuote ↦
    scanQuotes '\'' '\\' ' ' none inQuote uri) = some false

instance (v : Variables) (uri : Str) : Decidable (QuotesClose v uri) :=
  inferInstanceAs (Decidable (_ = some false))

section Quotes

variable {prev : Option Char} {q : Bool}

theorem scanQuotes_escapeValue (hprev : prev ≠ some '\\') (q : Bool) (value : Str) :
    scanQuotes '\'' '\\' ' ' prev q (escapeValue value) = valueQuotes q value := by
  have hescaped := escaped_quote_escapedText value
  unfold valueQuotes
  split
  · rename_i hspace
    have hmem : ' ' ∈ escapedText value := (mem_escapedText (by decide)).mpr hspace
    rw [escapeValue_of_mem hspace,
      scanQuotes_wrapped (hescaped _) (by decide) hprev (by decide) hmem, getLast?_escapedText]
  · rename_i hspace
    have hmem : ' ' ∉ escapedText value := fun h ↦ hspace ((mem_escapedText (by decide)).mp h)
    rw [escapeValue_of_notMem hspace, scanQuotes_of_notMem hmem, quoteAfter_of_escaped (hescaped _)]

theorem scanQuotes_part (hprev : prev ≠ some '\\') (q : Bool) (p : Str × Str) :
    scanQuotes '\'' '\\' ' ' prev q (Variables.part p) = variableQuotes q p := by
  unfold Variables.part variableQuotes
  rw [scanQuotes_append, scanQuotes_none hprev]
  congr 1
  funext q'
  rw [scanQuotes_cons_of_ne (by decide) (by decide), scanQuotes_escapeValue (by decide)]

theorem scanQuotes_parts {l : List (Str × Str)} (hprev : prev ≠ some '\\') (q : Bool) :
    scanQuotes '\'' '\\' ' ' prev q ([','].intercalate (l.map Variables.part)) =
      l.foldlM variableQuotes q := by
  induction l generalizing prev q with
  | nil => rfl
  | cons p l ih =>
      by_cases hl : l = []
      · subst hl
        rw [List.map_cons, List.map_nil, List.intercalate_singleton, scanQuotes_part hprev,
          List.foldlM_cons]
        exact (bind_pure _).symm
      · rw [List.map_cons, intercalate_cons (by simpa using hl), scanQuotes_append,
          scanQuotes_part hprev, List.foldlM_cons]
        change _ = (variableQuotes q p).bind fun q' ↦ l.foldlM variableQuotes q'
        congr 1
        funext q'
        rw [scanQuotes_cons_of_ne (by decide) (by decide)]
        exact ih (by decide) q'

theorem scanQuotes_dialString {v : Variables} (hv : v.Readable) (uri : Str) :
    scanQuotes '\'' '\\' ' ' none false (v.display ++ uri) =
      (v.inner.foldlM variableQuotes false).bind fun q ↦ scanQuotes '\'' '\\' ' ' none q uri := by
  rw [hv.display_eq, List.append_assoc, List.cons_append, List.singleton_append,
    scanQuotes_cons_of_ne (by decide) (by decide), scanQuotes_append,
    scanQuotes_parts (by decide)]
  congr 1
  funext q
  rw [scanQuotes_cons_of_ne (by decide) (by decide), scanQuotes_none (by decide)]

end Quotes

namespace Endpoint

variable {v : Variables} {uri s : Str} {e : Endpoint}

theorem display_of_readable (hv : v.Readable) :
    (generic uri (some v)).display = v.display ++ uri := by
  have hne : v.isEmpty = false := by simpa [Variables.isEmpty] using hv.ne_nil
  rw [display, writeVariables, hne]
  rfl

theorem trimmed_dialString (hv : v.Readable) (huri : Trimmed uri) : Trimmed (v.display ++ uri) := by
  have hend : trimEnd ('}' :: uri) = '}' :: uri := by
    rw [trimEnd_cons_of_not (by decide), huri.trimEnd_eq]
  rw [hv.display_eq, List.append_assoc, List.singleton_append]
  apply trimmed_append
  · exact trimStart_cons_of_not (by decide) _
  · exact List.cons_ne_nil _ _
  · exact hend
  · exact List.cons_ne_nil _ _

theorem isToken_dialString_iff (hv : v.Readable) (huri : Trimmed uri) :
    IsToken ' ' (v.display ++ uri) ↔ QuotesClose v uri := by
  have hhead : (v.display ++ uri).head? ≠ some ' ' := by
    rw [hv.display_eq]
    nofun
  have hne : v.display ++ uri ≠ [] := by
    rw [hv.display_eq]
    nofun
  rw [QuotesClose, ← scanQuotes_dialString hv, ← scanToken_eq hhead]
  exact ⟨fun h ↦ h.closed, fun h ↦ ⟨hne, trimmed_dialString hv huri, h⟩⟩

example : QuotesClose ⟨.default, [("note".toList, "a b".toList)], by decide⟩ "user/1".toList ∧
    IsToken ' ' "\x7bnote='a b'\x7duser/1".toList ∧
      ¬ IsToken ' ' "\x7ba b=c\x7duser/1".toList := by
  decide

/-! ## Reading -/

/-- What can be read as an endpoint. -/
theorem of_fromStr (h : fromStr s = .ok e) :
    ('{' ∉ s ∧ e = generic s none) ∨
      ∃ v uri block rest, e = generic uri (some v) ∧ v.Readable ∧ s = block ++ '}' :: rest ∧
        '}' ∉ block ∧ uri = trim rest ∧ Variables.fromStr (block ++ ['}']) = .ok v := by
  rw [fromStr] at h
  split at h
  · rename_i hbrace
    split at h
    · cases h
    · rename_i block rest hsplit
      obtain ⟨rfl, hblock⟩ := splitOnce_eq_some hsplit
      obtain ⟨v, hv, h⟩ := bind_eq_ok.mp h
      have hreadable := Variables.readable_of_fromStr hblock hv
      have hne : v.isEmpty = false := by simpa [Variables.isEmpty] using hreadable.ne_nil
      rw [hne] at h
      obtain rfl := Except.ok.inj h
      exact Or.inr ⟨v, trim rest, block, rest, rfl, hreadable, rfl, hblock, rfl, hv⟩
  · rename_i hbrace
    obtain rfl := Except.ok.inj h
    exact Or.inl ⟨hbrace, rfl⟩

theorem fromStr_dialString (hv : v.Readable) (rest : Str) :
    fromStr (v.display ++ rest) = do
      let vars ← Variables.fromStr v.display
      return generic (trim rest) (if vars.isEmpty then none else some vars) := by
  have hsplit : splitOnce '}' (v.display ++ rest) =
      some ('{' :: [','].intercalate (v.inner.map Variables.part), rest) := by
    rw [hv.display_eq, List.append_assoc, List.singleton_append]
    exact splitOnce_append hv.brace_notMem_block rest
  have hbrace : '{' ∈ v.display ++ rest := by
    rw [hv.display_eq]
    simp
  rw [fromStr, if_pos hbrace, hsplit]
  dsimp only
  rw [← hv.display_eq]

/-- An endpoint that was read is read again exactly when its variables are. -/
theorem fromStr_dialString_iff (hv : v.Readable) (huri : Trimmed uri) :
    fromStr (v.display ++ uri) = .ok (generic uri (some v)) ↔
      Variables.fromStr v.display = .ok v := by
  have hne : v.isEmpty = false := by simpa [Variables.isEmpty] using hv.ne_nil
  have htrim : trim uri = uri := huri
  rw [fromStr_dialString hv, htrim]
  constructor
  · intro h
    obtain ⟨w, hw, h⟩ := bind_eq_ok.mp h
    have hvars : (if w.isEmpty then none else some w) = some v :=
      (generic.inj (Except.ok.inj h)).2
    split at hvars
    · cases hvars
    · obtain rfl := Option.some.inj hvars
      exact hw
  · intro h
    rw [h]
    change Except.ok (generic uri (if v.isEmpty then none else some v)) = _
    rw [hne]
    rfl

/-- Nothing was trimmed from a text that goes on as its trimmed form does. -/
theorem eq_of_trim_eq {rest tail line : Str} (hend : trimEnd rest = rest)
    (hsame : rest ++ tail = trim rest ++ ' ' :: line) : rest = trim rest := by
  cases htrim : trim rest with
  | nil =>
      by_contra hne
      have hstart : trimStart rest = [] := by
        by_contra hstart
        exact trim_ne_nil hstart htrim
      have hspace := List.dropWhile_eq_nil_iff.mp hstart
      rw [trimEnd, List.rdropWhile_eq_nil_iff.mpr fun c hc ↦ hspace c hc] at hend
      exact hne hend.symm
  | cons c uri =>
      have hc : isWhitespace c = false :=
        isWhitespace_of_trimStart_eq (htrim ▸ (trimmed_trim rest).trimStart_eq)
      rw [htrim, List.cons_append] at hsame
      cases rest with
      | nil => cases htrim
      | cons d rest =>
          obtain ⟨rfl, -⟩ := List.cons.inj hsame
          rw [trim, trimStart_cons_of_not hc, hend] at htrim
          exact htrim

/-- A token at the front of a line that starts with the dial string is the whole dial
string if it is read as the same endpoint. -/
theorem eq_dialString_of_prefix (hv : v.Readable) {d line : Str} (hd : Trimmed d)
    (hline : d <+: v.display ++ uri ++ ' ' :: line)
    (hread : fromStr d = .ok (generic uri (some v))) :
    d = v.display ++ uri := by
  rcases of_fromStr hread with ⟨-, h⟩ | ⟨v', uri', block, rest, h, -, rfl, hblock, huri, -⟩
  · cases h
  · cases h
    obtain ⟨tail, htail⟩ := hline
    -- both stop at the first closing brace
    have hfirst : splitOnce '}' (block ++ '}' :: (rest ++ tail)) = some (block, rest ++ tail) :=
      splitOnce_append hblock _
    have hsecond : splitOnce '}' (v.display ++ uri ++ ' ' :: line) =
        some ('{' :: [','].intercalate (v.inner.map Variables.part), uri ++ ' ' :: line) := by
      rw [hv.display_eq, List.append_assoc, List.append_assoc, List.singleton_append]
      exact splitOnce_append hv.brace_notMem_block _
    rw [← htail, List.append_assoc, List.cons_append, hfirst] at hsecond
    obtain ⟨hsame, hrest⟩ := Prod.mk.inj (Option.some.inj hsecond)
    have hend : trimEnd rest = rest := trimEnd_eq_of_append (by decide) hd.trimEnd_eq
    rw [huri] at hrest
    have hsuri : rest = uri := (eq_of_trim_eq hend hrest).trans huri.symm
    rw [hsuri, hsame, hv.display_eq, List.append_assoc]
    rfl

end Endpoint

end FreeswitchEsl
