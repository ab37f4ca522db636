import FreeswitchEsl.Originate.Escape

/-!
# Channel variables, written and read back

The block of variables is split at the commas that no backslash escapes.  A value
keeps its backslashes, so one that ends with a backslash and is not quoted escapes
the comma behind it.
-/

namespace FreeswitchEsl

open Quoting Text

/-! ## Splitting at commas -/

/-- No part but the last one ends with a backslash. -/
def Separable (parts : List Str) : Prop := ∀ p ∈ parts.dropLast, p.getLast? ≠ some '\\'

section Split

variable {prev : Option Char} {part s p : Str} {parts : List Str}

theorem splitUnescapedCommas_escaped (h : Escaped '\\' ',' prev s) (part rest : Str) :
    splitUnescapedCommas prev part (s ++ rest) =
      splitUnescapedCommas (lastRead prev s) (part ++ s) rest := by
  induction s generalizing prev part with
  | nil => simp
  | cons c s ih =>
      have hpush : ¬ (c = ',' ∧ prev ≠ some '\\') := fun hc ↦ hc.2 (h.1 hc.1)
      have hrest := ih h.2 (part ++ [c])
      rw [List.append_assoc, List.singleton_append] at hrest
      rw [List.cons_append, splitUnescapedCommas, if_neg hpush]
      exact hrest

/-- What was read in front only lengthens the first part. -/
theorem exists_splitUnescapedCommas (prev : Option Char) (s : Str) :
    ∃ q after, ∀ part, splitUnescapedCommas prev part s = (part ++ q) :: after := by
  induction s generalizing prev with
  | nil =>
      refine ⟨[], [], fun part ↦ ?_⟩
      rw [splitUnescapedCommas, List.append_nil]
  | cons c s ih =>
      by_cases hc : c = ',' ∧ prev ≠ some '\\'
      · refine ⟨[], splitUnescapedCommas (some c) [] s, fun part ↦ ?_⟩
        rw [splitUnescapedCommas, if_pos hc, List.append_nil]
      · obtain ⟨q, after, hsplit⟩ := ih (some c)
        refine ⟨c :: q, after, fun part ↦ ?_⟩
        rw [splitUnescapedCommas, if_neg hc, hsplit, List.append_assoc, List.singleton_append]

/-- The last part of a text is read on behind it. -/
theorem splitUnescapedCommas_append (prev : Option Char) (part s : Str) :
    ∃ before p, splitUnescapedCommas prev part s = before ++ [p] ∧
      ∀ t, splitUnescapedCommas prev part (s ++ t) =
        before ++ splitUnescapedCommas (lastRead prev s) p t := by
  induction s generalizing prev part with
  | nil => exact ⟨[], part, rfl, fun _ ↦ rfl⟩
  | cons c s ih =>
      by_cases hc : c = ',' ∧ prev ≠ some '\\'
      · obtain ⟨before, p, hs, ht⟩ := ih (some c) []
        refine ⟨part :: before, p, ?_, fun t ↦ ?_⟩
        · rw [splitUnescapedCommas, if_pos hc, hs, List.cons_append]
        · rw [List.cons_append, splitUnescapedCommas, if_pos hc, ht, List.cons_append,
            lastRead_cons]
      · obtain ⟨before, p, hs, ht⟩ := ih (some c) (part ++ [c])
        refine ⟨before, p, ?_, fun t ↦ ?_⟩
        · rw [splitUnescapedCommas, if_neg hc, hs]
        · rw [List.cons_append, splitUnescapedCommas, if_neg hc, ht, lastRead_cons]

theorem splitUnescapedCommas_ne_nil : splitUnescapedCommas prev part s ≠ [] := by
  induction s generalizing prev part with
  | nil => nofun
  | cons c s ih =>
      rw [splitUnescapedCommas]
      split
      · nofun
      · exact ih

theorem splitUnescapedCommas_intercalate (hne : parts ≠ [])
    (h : ∀ p ∈ parts, p ≠ [] ∧ Escaped '\\' ',' none p) (hsep : Separable parts)
    (prev : Option Char) :
    splitUnescapedCommas prev [] ([','].intercalate parts) = parts := by
  induction parts generalizing prev with
  | nil => exact absurd rfl hne
  | cons p parts ih =>
      obtain ⟨hp, hescaped⟩ := h p List.mem_cons_self
      by_cases hparts : parts = []
      · subst hparts
        have hone := splitUnescapedCommas_escaped (hescaped.of_none prev) [] []
        rw [List.append_nil] at hone
        rw [List.intercalate_singleton, hone]
        rfl
      · have hlast : p.getLast? ≠ some '\\' := by
          apply hsep
          rw [List.dropLast_cons_of_ne_nil hparts]
          exact List.mem_cons_self
        have hrest : Separable parts := by
          intro q hq
          apply hsep
          rw [List.dropLast_cons_of_ne_nil hparts]
          exact List.mem_cons_of_mem _ hq
        rw [intercalate_cons hparts, splitUnescapedCommas_escaped (hescaped.of_none prev),
          splitUnescapedCommas, lastRead_eq_getLast? prev hp, if_pos ⟨rfl, hlast⟩,
          ih hparts (fun q hq ↦ h q (List.mem_cons_of_mem _ hq)) hrest]
        rfl

/-- Parts are only ever joined, and if none was, each of them can be split off. -/
theorem length_splitUnescapedCommas (hne : parts ≠ [])
    (h : ∀ p ∈ parts, p ≠ [] ∧ Escaped '\\' ',' none p) (prev : Option Char) (part : Str) :
    (splitUnescapedCommas prev part ([','].intercalate parts)).length ≤ parts.length ∧
      (parts.length ≤ (splitUnescapedCommas prev part ([','].intercalate parts)).length →
        Separable parts) := by
  induction parts generalizing prev part with
  | nil => exact absurd rfl hne
  | cons p parts ih =>
      obtain ⟨hp, hescaped⟩ := h p List.mem_cons_self
      by_cases hparts : parts = []
      · subst hparts
        have hone := splitUnescapedCommas_escaped (hescaped.of_none prev) part []
        rw [List.append_nil] at hone
        rw [List.intercalate_singleton, hone]
        exact ⟨le_refl _, fun _ ↦ nofun⟩
      · have htail : ∀ q ∈ parts, q ≠ [] ∧ Escaped '\\' ',' none q :=
          fun q hq ↦ h q (List.mem_cons_of_mem _ hq)
        rw [intercalate_cons hparts, splitUnescapedCommas_escaped (hescaped.of_none prev),
          splitUnescapedCommas, lastRead_eq_getLast? prev hp]
        split
        · rename_i hlast
          obtain ⟨hle, hsep⟩ := ih hparts htail (some ',') []
          rw [List.length_cons, List.length_cons]
          refine ⟨by omega, fun hlength ↦ ?_⟩
          intro q hq
          rw [List.dropLast_cons_of_ne_nil hparts] at hq
          rcases List.mem_cons.mp hq with rfl | hq
          · exact hlast.2
          · exact hsep (by omega) q hq
        · obtain ⟨hle, -⟩ := ih hparts htail (some ',') (part ++ p ++ [','])
          rw [List.length_cons]
          exact ⟨by omega, fun hlength ↦ by omega⟩

/-- Every part has its commas escaped, and its characters are those of the text. -/
theorem of_mem_splitUnescapedCommas (hpart : Escaped '\\' ',' none part)
    (hprev : prev = some '\\' → lastRead none part = some '\\')
    (hp : p ∈ splitUnescapedCommas prev part s) :
    Escaped '\\' ',' none p ∧ ∀ c ∈ p, c ∈ part ∨ c ∈ s := by
  induction s generalizing prev part with
  | nil =>
      obtain rfl := List.mem_singleton.mp hp
      exact ⟨hpart, fun c hc ↦ Or.inl hc⟩
  | cons c s ih =>
      rw [splitUnescapedCommas] at hp
      split at hp
      · rename_i hc
        rcases List.mem_cons.mp hp with rfl | hp
        · exact ⟨hpart, fun d hd ↦ Or.inl hd⟩
        · obtain ⟨hescaped, hmem⟩ := @ih (some c) [] trivial (by simp [hc.1]) hp
          refine ⟨hescaped, fun d hd ↦ Or.inr ?_⟩
          rcases hmem d hd with hd | hd
          · cases hd
          · exact List.mem_cons_of_mem _ hd
      · rename_i hc
        have hpush : Escaped '\\' ',' none (part ++ [c]) := by
          refine escaped_append.mpr ⟨hpart, fun hcomma ↦ hprev ?_, trivial⟩
          by_contra hne
          exact hc ⟨hcomma, hne⟩
        have hlast : some c = some '\\' → lastRead none (part ++ [c]) = some '\\' := by
          intro h
          rw [lastRead_append]
          exact h
        obtain ⟨hescaped, hmem⟩ := ih hpush hlast hp
        refine ⟨hescaped, fun d hd ↦ ?_⟩
        rcases hmem d hd with hd | hd
        · rcases List.mem_append.mp hd with hd | hd
          · exact Or.inl hd
          · obtain rfl := List.mem_singleton.mp hd
            exact Or.inr List.mem_cons_self
        · exact Or.inr (List.mem_cons_of_mem _ hd)

end Split

/-! ## Inserting -/

section Insert

variable {key value : Str} {l : List (Str × Str)}

theorem mem_indexInsert {p : Str × Str} (h : p ∈ indexInsert key value l) :
    p = (key, value) ∨ p ∈ l := by
  induction l with
  | nil => exact Or.inl (List.mem_singleton.mp h)
  | cons q l ih =>
      rw [indexInsert] at h
      split at h
      · rcases List.mem_cons.mp h with rfl | h
        · exact Or.inl rfl
        · exact Or.inr (List.mem_cons_of_mem _ h)
      · rcases List.mem_cons.mp h with rfl | h
        · exact Or.inr List.mem_cons_self
        · rcases ih h with h | h
          · exact Or.inl h
          · exact Or.inr (List.mem_cons_of_mem _ h)

theorem indexInsert_of_notMem (h : key ∉ l.map Prod.fst) :
    indexInsert key value l = l ++ [(key, value)] := by
  induction l with
  | nil => rfl
  | cons q l ih =>
      obtain ⟨hq, hl⟩ : key ≠ q.1 ∧ key ∉ l.map Prod.fst := by simpa using h
      rw [indexInsert, if_neg hq.symm, ih hl]
      rfl

theorem length_indexInsert_le : (indexInsert key value l).length ≤ l.length + 1 := by
  induction l with
  | nil => exact le_refl _
  | cons q l ih =>
      rw [indexInsert]
      split
      · simp
      · simpa using ih

theorem ne_nil_indexInsert : indexInsert key value l ≠ [] := by
  cases l with
  | nil => exact List.cons_ne_nil _ _
  | cons q l =>
      rw [indexInsert]
      split
      · exact List.cons_ne_nil _ _
      · exact List.cons_ne_nil _ _

end Insert

namespace Variables

/-- The text of one variable in the block. -/
def part (p : Str × Str) : Str := p.1 ++ '=' :: escapeValue p.2

/-- What `from_str` can give in front of a closing brace. -/
structure Readable (v : Variables) : Prop where
  varsType : v.varsType = .default
  ne_nil : v.inner ≠ []
  key : ∀ p ∈ v.inner, '=' ∉ p.1 ∧ '}' ∉ p.1 ∧ Escaped '\\' ',' none p.1
  value : ∀ p ∈ v.inner, '}' ∉ p.2

/-- No value hides the comma behind it. -/
def Stable (v : Variables) : Prop :=
  ∀ p ∈ v.inner.dropLast, ¬ (p.2.getLast? = some '\\' ∧ ' ' ∉ p.2)

theorem ext {v w : Variables} (htype : v.varsType = w.varsType) (hinner : v.inner = w.inner) :
    v = w := by
  cases v
  cases w
  cases htype
  cases hinner
  rfl

theorem insertPart_part {p : Str × Str} (h : '=' ∉ p.1) (v : Variables) :
    v.insertPart (part p) = .ok (v.insert p.1 p.2) := by
  rw [insertPart, part, splitOnce_append h]
  dsimp only
  rw [unescapeValue_escapeValue]

theorem foldlM_insertPart_part {l : List (Str × Str)} (hkey : ∀ p ∈ l, '=' ∉ p.1)
    (v : Variables) (hnodup : ((v.inner ++ l).map Prod.fst).Nodup) :
    ∃ w, (l.map part).foldlM insertPart v = .ok w ∧ w.varsType = v.varsType ∧
      w.inner = v.inner ++ l := by
  induction l generalizing v with
  | nil => exact ⟨v, rfl, rfl, (List.append_nil _).symm⟩
  | cons p l ih =>
      have hinner : (v.insert p.1 p.2).inner = v.inner ++ [p] := by
        apply indexInsert_of_notMem
        intro hmem
        rw [List.map_append, List.nodup_append] at hnodup
        exact hnodup.2.2 _ hmem _ List.mem_cons_self rfl
      obtain ⟨w, hw, htype, hrest⟩ := ih (fun q hq ↦ hkey q (List.mem_cons_of_mem _ hq))
        (v.insert p.1 p.2) (by rw [hinner, List.append_assoc]; exact hnodup)
      refine ⟨w, ?_, htype, ?_⟩
      · rw [List.map_cons, List.foldlM_cons, insertPart_part (hkey p List.mem_cons_self)]
        exact hw
      · rw [hrest, hinner, List.append_assoc]
        rfl

/-- The entries come from the parts, one for each at most. -/
theorem of_foldlM_insertPart {parts : List Str} {v w : Variables}
    (h : parts.foldlM insertPart v = .ok w) :
    w.varsType = v.varsType ∧ w.inner.length ≤ v.inner.length + parts.length ∧
      (parts ≠ [] → w.inner ≠ []) ∧
      ∀ p ∈ w.inner, p ∈ v.inner ∨ ∃ raw, p.1 ++ '=' :: raw ∈ parts ∧ '=' ∉ p.1 ∧
        p.2 = unescapeValue raw := by
  induction parts generalizing v with
  | nil =>
      obtain rfl := Except.ok.inj h
      exact ⟨rfl, le_refl _, fun hne ↦ absurd rfl hne, fun p hp ↦ Or.inl hp⟩
  | cons part parts ih =>
      obtain ⟨u, hu, hrest⟩ := bind_eq_ok.mp h
      rw [insertPart] at hu
      split at hu
      · rename_i key raw hsplit
        obtain ⟨rfl, hkey⟩ := splitOnce_eq_some hsplit
        obtain rfl := Except.ok.inj hu
        obtain ⟨htype, hlength, hne, hmem⟩ := ih hrest
        have hle : (indexInsert key (unescapeValue raw) v.inner).length ≤ v.inner.length + 1 :=
          length_indexInsert_le
        refine ⟨htype, ?_, ?_, ?_⟩
        · change w.inner.length ≤
            (indexInsert key (unescapeValue raw) v.inner).length + _ at hlength
          rw [List.length_cons]
          omega
        · intro _
          cases parts with
          | nil =>
              obtain rfl := Except.ok.inj hrest
              exact ne_nil_indexInsert
          | cons part parts => exact hne (List.cons_ne_nil _ _)
        · intro p hp
          rcases hmem p hp with hp | ⟨raw', hraw', hrest'⟩
          · rcases mem_indexInsert hp with rfl | hp
            · exact Or.inr ⟨raw, List.mem_cons_self, hkey, rfl⟩
            · exact Or.inl hp
          · exact Or.inr ⟨raw', List.mem_cons_of_mem _ hraw', hrest'⟩
      · cases hu

/-! ## The block -/

theorem escaped_comma_escapeValue (value : Str) (prev : Option Char) :
    Escaped '\\' ',' prev (escapeValue value) := by
  by_cases hspace : ' ' ∈ value
  · rw [escapeValue_of_mem hspace]
    exact escaped_append.mpr ⟨⟨nofun, escaped_comma_escapedText value _⟩, nofun, trivial⟩
  · rw [escapeValue_of_notMem hspace]
    exact escaped_comma_escapedText value prev

/-- A written value is read back, has a backslash in front of every comma, and stays in one
part of whatever it stands in. -/
theorem escapeValue_whole (value : Str) :
    unescapeValue (escapeValue value) = value ∧
      (∀ s t, escapeValue value = s ++ ',' :: t → s.getLast? = some '\\') ∧
      ∀ u w, ∃ before p q after, splitUnescapedCommas none [] u = before ++ [p] ∧
        splitUnescapedCommas none [] (u ++ escapeValue value ++ w) =
          before ++ (p ++ escapeValue value ++ q) :: after := by
  refine ⟨unescapeValue_escapeValue value, ?_, ?_⟩
  · intro s t hvalue
    have hescaped := escaped_comma_escapeValue value none
    rw [hvalue, escaped_append] at hescaped
    have hlast : lastRead none s = some '\\' := hescaped.2.1 rfl
    cases s with
    | nil => cases hlast
    | cons c s => rwa [lastRead_eq_getLast? none (List.cons_ne_nil c s)] at hlast
  · intro u w
    obtain ⟨before, p, hu, hbehind⟩ := splitUnescapedCommas_append none [] u
    have hescaped := escaped_comma_escapeValue value (lastRead none u)
    obtain ⟨q, after, hw⟩ :=
      exists_splitUnescapedCommas (lastRead (lastRead none u) (escapeValue value)) w
    refine ⟨before, p, q, after, hu, ?_⟩
    rw [List.append_assoc, hbehind, splitUnescapedCommas_escaped hescaped, hw]

theorem brace_notMem_escapeValue {value : Str} (h : '}' ∉ value) : '}' ∉ escapeValue value := by
  have htext : '}' ∉ escapedText value := by rwa [mem_escapedText (by decide)]
  by_cases hspace : ' ' ∈ value
  · rw [escapeValue_of_mem hspace]
    simpa using htext
  · rwa [escapeValue_of_notMem hspace]

theorem part_ne_nil (p : Str × Str) : part p ≠ [] := by simp [part]

theorem getLast?_part (p : Str × Str) :
    (part p).getLast? = some '\\' ↔ p.2.getLast? = some '\\' ∧ ' ' ∉ p.2 := by
  have hlast : (part p).getLast? = ('=' :: escapeValue p.2).getLast? := by
    rw [part, List.getLast?_append_of_ne_nil _ (List.cons_ne_nil _ _)]
  rw [hlast, List.getLast?_cons]
  by_cases hspace : ' ' ∈ p.2
  · rw [escapeValue_of_mem hspace, List.getLast?_concat]
    simp [hspace]
  · rw [escapeValue_of_notMem hspace, getLast?_escapedText]
    cases hvalue : p.2.getLast? <;> simp [hspace]

theorem isWhitespace_delimiters (t : VariablesType) :
    isWhitespace t.delimiters.1 = false ∧ isWhitespace t.delimiters.2 = false := by
  cases t <;> decide

theorem fromStr_delimiters (t : VariablesType) (text : Str) :
    fromStr (t.delimiters.1 :: text ++ [t.delimiters.2]) =
      (splitUnescapedCommas none [] text).foldlM insertPart (new t) := by
  obtain ⟨hopen, hclose⟩ := isWhitespace_delimiters t
  have htrim : trim (t.delimiters.1 :: text ++ [t.delimiters.2]) =
      t.delimiters.1 :: text ++ [t.delimiters.2] := trimmed_wrapped hopen hclose text
  have hlength : ¬ (utf8Encode (t.delimiters.1 :: text ++ [t.delimiters.2])).length < 2 := by
    rw [List.cons_append, utf8Encode_cons, utf8Encode_append, List.length_append,
      List.length_append]
    have hfirst : (String.utf8EncodeChar t.delimiters.1).length = 1 := by cases t <;> decide
    have hlast : (utf8Encode [t.delimiters.2]).length = 1 := by cases t <;> decide
    omega
  have hlast : (t.delimiters.1 :: text ++ [t.delimiters.2]).getLast? = some t.delimiters.2 :=
    List.getLast?_concat
  have hinner : (t.delimiters.1 :: text ++ [t.delimiters.2]).tail.dropLast = text := by
    rw [List.cons_append, List.tail_cons, List.dropLast_concat]
  have hscope : scopeOf (some t.delimiters.1) (some t.delimiters.2) = some t := by
    cases t <;> rfl
  rw [fromStr, htrim, if_neg hlength, hlast, hinner, List.cons_append, List.head?_cons, hscope]

/-- Variables in the delimiters of their scope are read again exactly when no comma behind
a value is taken for a part of it. -/
theorem fromStr_display_iff_of_keys {v : Variables} (hne : v.inner ≠ [])
    (hkey : ∀ p ∈ v.inner, '=' ∉ p.1 ∧ Escaped '\\' ',' none p.1) :
    fromStr v.display = .ok v ↔ v.Stable := by
  have hpartsne : v.inner.map part ≠ [] := by simpa using hne
  have hparts : ∀ t ∈ v.inner.map part, t ≠ [] ∧ Escaped '\\' ',' none t := by
    intro t ht
    obtain ⟨p, hp, rfl⟩ := List.mem_map.mp ht
    refine ⟨part_ne_nil p, escaped_append.mpr ⟨(hkey p hp).2, nofun, ?_⟩⟩
    exact escaped_comma_escapeValue _ _
  have hsep : Separable (v.inner.map part) ↔ v.Stable := by
    rw [Separable, ← List.map_dropLast, Stable]
    simp only [List.forall_mem_map, ne_eq, getLast?_part]
  have hread : fromStr v.display = (splitUnescapedCommas none []
      ([','].intercalate (v.inner.map part))).foldlM insertPart (new v.varsType) :=
    fromStr_delimiters v.varsType _
  rw [hread, ← hsep]
  constructor
  · intro hv
    obtain ⟨hle, hseparable⟩ := length_splitUnescapedCommas hpartsne hparts none []
    obtain ⟨-, hlength, -⟩ := of_foldlM_insertPart hv
    apply hseparable
    rw [List.length_map]
    simpa [new] using hlength
  · intro hseparable
    rw [splitUnescapedCommas_intercalate hpartsne hparts hseparable]
    obtain ⟨w, hw, htype, hinner⟩ := foldlM_insertPart_part (fun p hp ↦ (hkey p hp).1)
      (new v.varsType) (by simpa [new] using v.nodup)
    rw [hw]
    apply congrArg
    exact ext htype hinner

section Readable

variable {v : Variables}

theorem Readable.brace_notMem (h : v.Readable) {p : Str × Str} (hp : p ∈ v.inner) :
    '}' ∉ part p := by
  intro hmem
  rcases List.mem_append.mp hmem with hmem | hmem
  · exact (h.key p hp).2.1 hmem
  · rcases List.mem_cons.mp hmem with hmem | hmem
    · cases hmem
    · exact brace_notMem_escapeValue (h.value p hp) hmem

theorem Readable.display_eq (h : v.Readable) :
    v.display = '{' :: [','].intercalate (v.inner.map part) ++ ['}'] := by
  rw [display, h.varsType]
  rfl

theorem Readable.brace_notMem_block (h : v.Readable) :
    '}' ∉ '{' :: [','].intercalate (v.inner.map part) := by
  intro hmem
  rcases List.mem_cons.mp hmem with hmem | hmem
  · cases hmem
  · rcases of_mem_intercalate hmem with hmem | ⟨text, htext, hmem⟩
    · cases hmem
    · obtain ⟨p, hp, rfl⟩ := List.mem_map.mp htext
      exact h.brace_notMem hp hmem

/-- Variables that were read are read again exactly when no comma behind a value is
taken for a part of it. -/
theorem Readable.fromStr_display_iff (h : v.Readable) :
    fromStr v.display = .ok v ↔ v.Stable := by
  apply fromStr_display_iff_of_keys h.ne_nil
  exact fun p hp ↦ ⟨(h.key p hp).1, (h.key p hp).2.2⟩

end Readable

/-- What is read in front of a closing brace stands in braces. -/
theorem exists_braces_of_fromStr {v : Variables} {block : Str}
    (h : fromStr (block ++ ['}']) = .ok v) :
    ∃ text, trimStart block = '{' :: text ∧
      (splitUnescapedCommas none [] text).foldlM insertPart (new .default) = .ok v := by
  have htrim : trim (block ++ ['}']) = trimStart block ++ ['}'] := by
    have hstart : trimStart (block ++ ['}']) = trimStart block ++ ['}'] := by
      rw [trimStart_append]
      split
      · rename_i hnil
        rw [hnil]
        rfl
      · rfl
    rw [trim, hstart]
    exact trimEnd_concat (by decide) _
  rw [fromStr, htrim] at h
  split at h
  · cases h
  · rename_i hlength
    cases hblock : trimStart block with
    | nil =>
        rw [hblock] at hlength
        exact absurd (by decide) hlength
    | cons c text =>
        rw [hblock, List.getLast?_concat] at h
        by_cases hc : c = '{'
        · subst hc
          refine ⟨text, rfl, ?_⟩
          rw [List.cons_append, List.tail_cons, List.dropLast_concat] at h
          exact h
        · have hscope : scopeOf (c :: text ++ ['}']).head? (some '}') = none := by
            rw [List.cons_append, List.head?_cons]
            unfold scopeOf
            split <;> simp_all
          rw [hscope] at h
          cases h

/-- What is read in front of a closing brace can be read. -/
theorem readable_of_fromStr {v : Variables} {block : Str} (hblock : '}' ∉ block)
    (h : fromStr (block ++ ['}']) = .ok v) : v.Readable := by
  obtain ⟨text, htext, hread⟩ := exists_braces_of_fromStr h
  have hbrace : '}' ∉ text := by
    intro hmem
    have hstart : '}' ∈ trimStart block := by
      rw [htext]
      exact List.mem_cons_of_mem _ hmem
    exact hblock ((List.dropWhile_suffix _).subset hstart)
  obtain ⟨htype, -, hne, hmem⟩ := of_foldlM_insertPart hread
  have hentry : ∀ p ∈ v.inner, ∃ raw, Escaped '\\' ',' none (p.1 ++ '=' :: raw) ∧
      '}' ∉ p.1 ++ '=' :: raw ∧ '=' ∉ p.1 ∧ p.2 = unescapeValue raw := by
    intro p hp
    rcases hmem p hp with hp | ⟨raw, hraw, hkey, hvalue⟩
    · cases hp
    · have hempty : Escaped '\\' ',' none [] := trivial
      obtain ⟨hescaped, hchars⟩ := of_mem_splitUnescapedCommas hempty (by simp) hraw
      refine ⟨raw, hescaped, fun hmem ↦ ?_, hkey, hvalue⟩
      rcases hchars _ hmem with hmem | hmem
      · cases hmem
      · exact hbrace hmem
  refine ⟨htype, hne splitUnescapedCommas_ne_nil, ?_, ?_⟩
  · intro p hp
    obtain ⟨raw, hescaped, hchars, hkey, -⟩ := hentry p hp
    refine ⟨hkey, fun hmem ↦ hchars (List.mem_append_left _ hmem), ?_⟩
    exact (escaped_append.mp hescaped).1
  · intro p hp hmem
    obtain ⟨raw, -, hchars, -, hvalue⟩ := hentry p hp
    rw [hvalue] at hmem
    rcases mem_unescapeValue hmem with hmem | hmem | hmem
    · cases hmem
    · cases hmem
    · exact hchars (List.mem_append_right _ (List.mem_cons_of_mem _ hmem))

/-! ## Every scope -/

/-- Variables of any scope, with any values, are read again exactly when no value in front
of a comma ends with a backslash that no quote follows. -/
theorem fromStr_display_iff_stable {v : Variables} (hne : v.inner ≠ [])
    (hkey : ∀ p ∈ v.inner, '=' ∉ p.1 ∧ ',' ∉ p.1) : fromStr v.display = .ok v ↔ v.Stable := by
  apply fromStr_display_iff_of_keys hne
  exact fun p hp ↦ ⟨(hkey p hp).1, escaped_of_notMem (hkey p hp).2 none⟩

/-- A value with a backslash at its end, and another one behind it. -/
def hiddenComma : Variables :=
  ⟨.channel, [("a".toList, "x\\".toList), ("b".toList, "y".toList)], by decide⟩

theorem fromStr_display_iff_stable_hiddenComma :
    fromStr hiddenComma.display = .ok hiddenComma ↔ hiddenComma.Stable :=
  fromStr_display_iff_stable (by decide) (by decide)

theorem not_fromStr_display_hiddenComma :
    ¬ ∀ v : Variables, v.inner ≠ [] → (∀ p ∈ v.inner, '=' ∉ p.1 ∧ ',' ∉ p.1) →
      fromStr v.display = .ok v := by
  intro h
  have hread : (fromStr hiddenComma.display).toOption.map inner =
      some [("a".toList, "x,b=y".toList)] := by decide +kernel
  rw [h hiddenComma (by decide) (by decide)] at hread
  revert hread
  decide

end Variables

end FreeswitchEsl
