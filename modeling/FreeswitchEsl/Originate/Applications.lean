import FreeswitchEsl.Originate.Line

/-!
# Application lists, written and read back

The text of the applications is one token of the line.  What is written in XML form is
read back unless the name has a parenthesis, and an inline list is read back if each of
its applications is one token.
-/

namespace FreeswitchEsl

open Quoting Text

/-- The arguments as they are written. -/
def Application.argText (app : Application) : Str := app.args.getD []

section Xml

variable {app : Application} {apps : List Application} {dialplan : Option DialplanType} {s : Str}

theorem toStringWithDialplan_xml (app : Application) :
    app.toStringWithDialplan .xml = '&' :: (app.name ++ '(' :: app.argText) ++ [')'] := by
  simp [Application.toStringWithDialplan, Application.argText]

theorem applicationsToString_xml (hd : dialplan ≠ some .inline) (happs : apps = [app]) :
    applicationsToString apps (dialplan.getD .xml) = .ok (app.toStringWithDialplan .xml) := by
  have hdialplan : dialplan.getD .xml = .xml := by
    cases dialplan with
    | none => rfl
    | some dp =>
        cases dp with
        | xml => rfl
        | inline => exact absurd rfl hd
  rw [happs, hdialplan]
  rfl

theorem parseApplicationList_xml (hd : dialplan ≠ some .inline) (hname : '(' ∉ app.name) :
    parseApplicationList (app.toStringWithDialplan .xml) dialplan =
      .ok [⟨app.name, if app.argText = [] then none else some app.argText⟩] := by
  rw [parseApplicationList, if_neg hd, toStringWithDialplan_xml, List.cons_append,
    stripPrefix_cons]
  dsimp only
  rw [stripSuffix_append]
  dsimp only
  rw [splitOnce_append hname]

/-- Without the inline dialplan there is one application, and its text is an application
call or a bare extension. -/
theorem parseApplicationList_xml_cases (hd : dialplan ≠ some .inline)
    (h : parseApplicationList s dialplan = .ok apps) :
    (∃ name args, s = '&' :: (name ++ '(' :: args) ++ [')'] ∧ '(' ∉ name ∧
      apps = [⟨name, if args = [] then none else some args⟩]) ∨
        (s.head? ≠ some '&' ∧ apps = [⟨s, none⟩]) := by
  rw [parseApplicationList, if_neg hd] at h
  split at h
  · rename_i rest hprefix
    split at h
    · cases h
    · rename_i inner hsuffix
      split at h
      · cases h
      · rename_i name args hsplit
        obtain ⟨rfl, hname⟩ := splitOnce_eq_some hsplit
        obtain rfl := stripSuffix_eq_some hsuffix
        obtain rfl := stripPrefix_eq_some hprefix
        obtain rfl := Except.ok.inj h
        exact Or.inl ⟨name, args, rfl, hname, rfl⟩
  · rename_i hprefix
    obtain rfl := Except.ok.inj h
    refine Or.inr ⟨fun hhead ↦ ?_, rfl⟩
    obtain ⟨rest, rfl⟩ := List.head?_eq_some_iff.mp hhead
    rw [stripPrefix_cons] at hprefix
    cases hprefix

/-- No parenthesis is in the name of an application that was written in XML form. -/
theorem of_parseApplicationList_xml (hd : dialplan ≠ some .inline)
    (h : parseApplicationList s dialplan = .ok apps) :
    ∃ app, apps = [app] ∧ app.args ≠ some [] ∧ (s.head? = some '&' → '(' ∉ app.name) := by
  rcases parseApplicationList_xml_cases hd h with ⟨name, args, -, hname, rfl⟩ | ⟨hhead, rfl⟩
  · refine ⟨_, rfl, ?_, fun _ ↦ hname⟩
    split
    · nofun
    · rename_i hargs
      simpa using hargs
  · exact ⟨_, rfl, nofun, fun h ↦ absurd h hhead⟩

theorem trimmed_xml (app : Application) : Trimmed (app.toStringWithDialplan .xml) := by
  rw [toStringWithDialplan_xml]
  exact trimmed_wrapped (by decide) (by decide) _

theorem originateUnquote_xml (app : Application) :
    originateUnquote (originateQuote (app.toStringWithDialplan .xml)) =
      app.toStringWithDialplan .xml := by
  apply originateUnquote_originateQuote_of_head?_ne
  rw [toStringWithDialplan_xml]
  simp

theorem isToken_xml_iff (app : Application) :
    IsToken ' ' (originateQuote (app.toStringWithDialplan .xml)) ↔
      ' ' ∈ app.name ∨ ' ' ∈ app.argText ∨
        quoteAfter '\'' '\\' none false (app.name ++ '(' :: app.argText) = false := by
  have hne : app.toStringWithDialplan .xml ≠ [] := by
    rw [toStringWithDialplan_xml]
    exact List.cons_ne_nil _ _
  have hspace : ' ' ∈ app.toStringWithDialplan .xml ↔ ' ' ∈ app.name ∨ ' ' ∈ app.argText := by
    simp [toStringWithDialplan_xml]
  have hlast : (app.toStringWithDialplan .xml).getLast? = some ')' := by
    rw [toStringWithDialplan_xml, List.getLast?_concat]
  have hquote : quoteAfter '\'' '\\' none false (app.toStringWithDialplan .xml) =
      quoteAfter '\'' '\\' none false (app.name ++ '(' :: app.argText) := by
    rw [toStringWithDialplan_xml, quoteAfter_append, quoteAfter_of_notMem (by decide), quoteAfter,
      toggled_of_ne (by decide), quoteAfter_none (by decide)]
  rw [isToken_originateQuote_iff hne (trimmed_xml app), quoteAfter_originateQuote, hlast, hquote,
    ← or_assoc, ← hspace]
  by_cases h : ' ' ∈ app.toStringWithDialplan .xml
  · simp [h]
  · simp [h]

end Xml

/-! ## Inline applications -/

/-- The text of the applications for the inline dialplan. -/
def inlineText (apps : List Application) : Str :=
  [','].intercalate (apps.map (·.toStringWithDialplan .inline))

/-- An application that is one token of the list and is cut at its colon. -/
structure Application.Inline (app : Application) : Prop where
  isToken : IsToken ',' (app.toStringWithDialplan .inline)
  name : ':' ∉ app.name
  args : app.args.isSome

section Inline

variable {app : Application} {apps : List Application} {s part : Str} {parts : List Str}

theorem toStringWithDialplan_inline (app : Application) :
    app.toStringWithDialplan .inline = app.name ++ ':' :: app.argText := rfl

theorem parseInlineApplication_eq_ok_iff :
    parseInlineApplication part = .ok app ↔
      app.toStringWithDialplan .inline = part ∧ ':' ∉ app.name ∧ app.args.isSome := by
  rw [parseInlineApplication]
  constructor
  · intro h
    split at h
    · rename_i name args hsplit
      obtain ⟨rfl, hname⟩ := splitOnce_eq_some hsplit
      obtain rfl := Except.ok.inj h
      exact ⟨rfl, hname, rfl⟩
    · cases h
  · rintro ⟨rfl, hname, hargs⟩
    obtain ⟨args, hargs⟩ := Option.isSome_iff_exists.mp hargs
    rw [toStringWithDialplan_inline, splitOnce_append hname, Application.argText, hargs]
    dsimp only
    rw [Option.getD_some, ← hargs]

theorem mapM_parseInlineApplication_eq_ok_iff :
    parts.mapM parseInlineApplication = .ok apps ↔
      apps.map (·.toStringWithDialplan .inline) = parts ∧
        ∀ app ∈ apps, ':' ∉ app.name ∧ app.args.isSome := by
  induction parts generalizing apps with
  | nil =>
      rw [List.mapM_nil]
      constructor
      · intro h
        obtain rfl := Except.ok.inj h
        exact ⟨rfl, nofun⟩
      · rintro ⟨h, -⟩
        rw [List.map_eq_nil_iff.mp h]
        rfl
  | cons part parts ih =>
      rw [List.mapM_cons]
      constructor
      · intro h
        obtain ⟨app, happ, h⟩ := bind_eq_ok.mp h
        obtain ⟨rest, hrest, h⟩ := bind_eq_ok.mp h
        obtain rfl := Except.ok.inj h
        obtain ⟨rfl, hfields⟩ := parseInlineApplication_eq_ok_iff.mp happ
        obtain ⟨rfl, hall⟩ := ih.mp hrest
        refine ⟨rfl, fun a ha ↦ ?_⟩
        rcases List.mem_cons.mp ha with rfl | ha
        · exact hfields
        · exact hall a ha
      · rintro ⟨h, hall⟩
        obtain ⟨app, rest, rfl, happ, hrest⟩ := List.map_eq_cons_iff.mp h
        refine bind_eq_ok.mpr ⟨app, ?_, bind_eq_ok.mpr ⟨rest, ?_, rfl⟩⟩
        · exact parseInlineApplication_eq_ok_iff.mpr ⟨happ, hall app List.mem_cons_self⟩
        · exact ih.mpr ⟨hrest, fun a ha ↦ hall a (List.mem_cons_of_mem _ ha)⟩

theorem parseApplicationList_inline_eq_ok_iff :
    parseApplicationList s (some .inline) = .ok apps ↔
      originateSplit s ',' = .ok (apps.map (·.toStringWithDialplan .inline)) ∧
        ∀ app ∈ apps, ':' ∉ app.name ∧ app.args.isSome := by
  rw [parseApplicationList, if_pos rfl]
  constructor
  · intro h
    obtain ⟨parts, hparts, h⟩ := bind_eq_ok.mp h
    obtain ⟨rfl, hall⟩ := mapM_parseInlineApplication_eq_ok_iff.mp h
    exact ⟨hparts, hall⟩
  · rintro ⟨hparts, hall⟩
    exact bind_eq_ok.mpr ⟨_, hparts, mapM_parseInlineApplication_eq_ok_iff.mpr ⟨rfl, hall⟩⟩

theorem inline_of_parse (h : parseApplicationList s (some .inline) = .ok apps) :
    ∀ app ∈ apps, app.Inline := by
  obtain ⟨hsplit, hall⟩ := parseApplicationList_inline_eq_ok_iff.mp h
  intro app happ
  obtain ⟨hname, hargs⟩ := hall app happ
  exact ⟨isToken_of_originateSplit (by decide) hsplit (List.mem_map_of_mem happ), hname, hargs⟩

theorem length_inlineText_le (h : parseApplicationList s (some .inline) = .ok apps) :
    (inlineText apps).length ≤ s.length := by
  obtain ⟨hsplit, -⟩ := parseApplicationList_inline_eq_ok_iff.mp h
  have hlength := length_intercalate_le_of_split hsplit
  rwa [List.length_nil, Nat.zero_add] at hlength

theorem parseApplicationList_inlineText (h : ∀ app ∈ apps, app.Inline) :
    parseApplicationList (inlineText apps) (some .inline) = .ok apps := by
  rw [parseApplicationList_inline_eq_ok_iff]
  refine ⟨?_, fun app happ ↦ ⟨(h app happ).name, (h app happ).args⟩⟩
  apply originateSplitLoop_intercalate
  · intro t ht
    obtain ⟨app, happ, rfl⟩ := List.mem_map.mp ht
    exact (h app happ).isToken
  · decide
  · decide

theorem space_mem_inlineText :
    ' ' ∈ inlineText apps ↔ ∃ app ∈ apps, ' ' ∈ app.name ∨ ' ' ∈ app.argText := by
  constructor
  · intro h
    rcases of_mem_intercalate h with h | ⟨part, hpart, h⟩
    · cases h
    · obtain ⟨app, happ, rfl⟩ := List.mem_map.mp hpart
      refine ⟨app, happ, ?_⟩
      simpa [toStringWithDialplan_inline] using h
  · rintro ⟨app, happ, h⟩
    apply mem_intercalate (List.mem_map_of_mem happ)
    simpa [toStringWithDialplan_inline] using h

theorem toStringWithDialplan_inline_ne_nil (app : Application) :
    app.toStringWithDialplan .inline ≠ [] := by simp [toStringWithDialplan_inline]

theorem colon_mem_inlineText (h : apps ≠ []) : ':' ∈ inlineText apps := by
  obtain ⟨app, apps, rfl⟩ := List.exists_cons_of_ne_nil h
  have hcolon : ':' ∈ app.toStringWithDialplan .inline := by simp [toStringWithDialplan_inline]
  exact mem_intercalate (by simp) hcolon

theorem head?_inlineText {c : Char} (hc : c ≠ ':') :
    (inlineText apps).head? = some c ↔ apps.head?.bind (·.name.head?) = some c := by
  cases apps with
  | nil => exact Iff.rfl
  | cons app apps =>
      rw [inlineText, List.map_cons, head?_intercalate (toStringWithDialplan_inline_ne_nil app),
        toStringWithDialplan_inline, List.head?_append, List.head?_cons, List.head?_cons,
        Option.bind_some]
      cases app.name.head? <;> simp [hc.symm]

theorem getLast?_inlineText {c : Char} (hc : c ≠ ':') :
    (inlineText apps).getLast? = some c ↔ apps.getLast?.bind (·.argText.getLast?) = some c := by
  cases hlast : apps.getLast? with
  | none =>
      rw [List.getLast?_eq_none_iff.mp hlast]
      exact Iff.rfl
  | some app =>
      have hmap : (apps.map (·.toStringWithDialplan .inline)).getLast? =
          some (app.toStringWithDialplan .inline) := by
        rw [List.getLast?_map, hlast]
        rfl
      rw [inlineText, getLast?_intercalate (toStringWithDialplan_inline_ne_nil app) hmap,
        toStringWithDialplan_inline, List.getLast?_append_of_ne_nil _ (List.cons_ne_nil _ _),
        List.getLast?_cons, Option.bind_some]
      cases app.argText.getLast? <;> simp [hc.symm]

theorem trimmed_inlineText (h : ∀ app ∈ apps, app.Inline) : Trimmed (inlineText apps) := by
  apply trimmed_intercalate
  intro t ht
  obtain ⟨app, happ, rfl⟩ := List.mem_map.mp ht
  exact (h app happ).isToken.ne_nil_and_trimmed

theorem isToken_inlineText_iff (h : ∀ app ∈ apps, app.Inline) (hne : apps ≠ []) :
    IsToken ' ' (originateQuote (inlineText apps)) ↔
      (' ' ∈ inlineText apps → (inlineText apps).getLast? ≠ some '\\') := by
  have hclosed : quoteAfter '\'' '\\' none false (inlineText apps) = false := by
    apply quoteAfter_intercalate (by decide) (by decide) _ (by decide) false
    intro t ht
    obtain ⟨app, happ, rfl⟩ := List.mem_map.mp ht
    exact quoteAfter_of_scanToken (h app happ).isToken.closed
  have htext := List.ne_nil_of_mem (colon_mem_inlineText hne)
  rw [isToken_originateQuote_iff htext (trimmed_inlineText h), quoteAfter_originateQuote, hclosed]
  by_cases hspace : ' ' ∈ inlineText apps <;> simp [hspace]

/-- Quotes that belong to the list are taken for the quotes around it. -/
theorem parseApplicationList_unquote_iff (h : ∀ app ∈ apps, app.Inline) :
    parseApplicationList (originateUnquote (originateQuote (inlineText apps))) (some .inline) =
        .ok apps ↔
      (' ' ∈ inlineText apps ∨ (inlineText apps).head? ≠ some '\'' ∨
        (inlineText apps).getLast? ≠ some '\'') := by
  by_cases hspace : ' ' ∈ inlineText apps
  · rw [originateUnquote_originateQuote_of_mem hspace]
    exact iff_of_true (parseApplicationList_inlineText h) (Or.inl hspace)
  · rw [originateQuote_of_notMem hspace]
    constructor
    · intro hread
      by_contra hwrapped
      obtain ⟨-, hhead, hlast⟩ : ' ' ∉ inlineText apps ∧ (inlineText apps).head? = some '\'' ∧
          (inlineText apps).getLast? = some '\'' := by simpa using hwrapped
      have hne : apps ≠ [] := by
        rintro rfl
        cases hhead
      obtain ⟨rest, hrest⟩ := List.head?_eq_some_iff.mp hhead
      have hcolon := colon_mem_inlineText hne
      have hrestne : rest ≠ [] := by
        rintro rfl
        rw [hrest] at hcolon
        cases List.mem_singleton.mp hcolon
      rw [hrest, List.getLast?_cons_of_ne_nil hrestne] at hlast
      obtain ⟨inner, rfl⟩ := List.getLast?_eq_some_iff.mp hlast
      -- the list that is read is written with fewer characters
      have hlength := length_inlineText_le hread
      rw [hrest] at hlength
      exact absurd hlength (not_le.mpr (length_originateUnquote_lt inner))
    · rintro (hmem | hhead | hlast)
      · exact absurd hmem hspace
      · rw [originateUnquote_of_head?_ne hhead]
        exact parseApplicationList_inlineText h
      · rw [originateUnquote_of_getLast?_ne hlast]
        exact parseApplicationList_inlineText h

end Inline

end FreeswitchEsl
