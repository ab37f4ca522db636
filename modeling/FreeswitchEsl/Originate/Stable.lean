import FreeswitchEsl.Originate.RoundTrip

/-!
# Commands that were read

What `from_str` accepts can always be formatted.  It is read back exactly when no quote,
backslash or parenthesis in it is taken for one that formatting adds.
-/

namespace FreeswitchEsl

open Quoting Text

namespace Originate

/-! ## What is read -/

/-- What `from_str` can give. -/
structure Readable (o : Originate) : Prop where
  endpoint : (∃ uri, o.endpoint = .generic uri none ∧ '{' ∉ uri ∧ IsToken ' ' uri) ∨
    ∃ uri v, o.endpoint = .generic uri (some v) ∧ v.Readable ∧ Trimmed uri
  xml : o.dialplan ≠ some .inline → ∃ app, o.applications = [app] ∧ app.args ≠ some []
  inline : o.dialplan = some .inline → ∀ app ∈ o.applications, app.Inline
  positional : o.Positional
  isToken_fields : ∀ field ∈ o.fields, IsToken ' ' field

section Read

variable {o : Originate} {endpoint : Endpoint} {appStr s : Str} {args tokens : List Str}

theorem positional_of_fromArgs (h : fromArgs endpoint appStr args = .ok o) : o.Positional := by
  obtain ⟨-, hdialplan, -, ⟨hcontext, hname, hnum⟩, htimeout⟩ := of_fromArgs h
  have hdp : o.dialplan = none → o.context = args.head? := by
    intro hnone
    rw [hcontext, ← hdialplan, hnone]
    rfl
  generalize (if (dialplanOf args).isSome then args.tail else args) = rest at *
  have htail : ∀ l : List Str, l.head? = none → l.tail.head? = none := by
    intro l hl
    rw [List.head?_eq_none_iff.mp hl]
    rfl
  have hlast : rest.tail.tail.head? = none → o.timeout = none := by
    intro hnone
    rw [htail _ hnone] at htimeout
    exact (Except.ok.inj htimeout).symm
  refine ⟨?_, ?_, ?_, ?_⟩
  · intro hnone
    have hsecond := htail _ (hcontext.symm.trans hnone)
    exact ⟨hname.trans hsecond, hnum.trans (htail _ hsecond), hlast (htail _ hsecond)⟩
  · intro hnone
    have hthird := htail _ (hname.symm.trans hnone)
    exact ⟨hnum.trans hthird, hlast hthird⟩
  · intro hnone
    exact hlast (hnum.symm.trans hnone)
  · intro hnone
    rw [hdp hnone]
    exact dialplanOf_eq_none_iff.mp (hdialplan.symm.trans hnone)

theorem isToken_fields_of_fromArgs (h : fromArgs endpoint appStr args = .ok o)
    (hargs : ∀ arg ∈ args, IsToken ' ' arg) : ∀ field ∈ o.fields, IsToken ' ' field := by
  obtain ⟨-, -, -, ⟨hcontext, hname, hnum⟩, -⟩ := of_fromArgs h
  have hrest : ∀ arg ∈ (if (dialplanOf args).isSome then args.tail else args),
      IsToken ' ' arg := by
    intro arg harg
    split at harg
    · exact hargs arg (List.mem_of_mem_tail harg)
    · exact hargs arg harg
  generalize (if (dialplanOf args).isSome then args.tail else args) = rest at *
  apply forall_mem_fields
  · exact fun w hw ↦ hw.isToken hw.space_notMem
  · intro s hs
    rw [hcontext] at hs
    exact hrest s (List.mem_of_mem_head? hs)
  · intro s hs
    rw [hname] at hs
    exact hrest s (List.mem_of_mem_tail (List.mem_of_mem_head? hs))
  · intro s hs
    rw [hnum] at hs
    exact hrest s (List.mem_of_mem_tail (List.mem_of_mem_tail (List.mem_of_mem_head? hs)))

theorem of_fromTokens (h : fromTokens tokens = .ok o) :
    ∃ endpointStr appArg args, tokens = endpointStr :: appArg :: args ∧
      Endpoint.fromStr endpointStr = .ok o.endpoint ∧
        fromArgs o.endpoint (originateUnquote appArg) args = .ok o := by
  cases tokens with
  | nil => cases h
  | cons endpointStr args =>
      obtain ⟨endpoint, hendpoint, h⟩ := bind_eq_ok.mp h
      cases args with
      | nil => cases h
      | cons appArg args =>
          obtain rfl := (of_fromArgs h).1
          exact ⟨endpointStr, appArg, args, rfl, hendpoint, h⟩

theorem readable_of_fromStr (h : fromStr s = .ok o) : o.Readable := by
  rw [fromStr_eq] at h
  obtain ⟨tokens, hsplit, h⟩ := bind_eq_ok.mp h
  have htokens : ∀ t ∈ tokens, IsToken ' ' t :=
    fun t ht ↦ isToken_of_originateSplit (by decide) hsplit ht
  obtain ⟨endpointStr, appArg, args, rfl, hendpoint, h⟩ := of_fromTokens h
  obtain ⟨-, -, happs, -⟩ := of_fromArgs h
  refine ⟨?_, ?_, ?_, positional_of_fromArgs h, ?_⟩
  · rcases Endpoint.of_fromStr hendpoint with ⟨hbrace, he⟩ | ⟨v, uri, -, rest, he, hv, -, -, rfl, -⟩
    · exact Or.inl ⟨_, he, hbrace, htokens _ List.mem_cons_self⟩
    · exact Or.inr ⟨_, v, he, hv, trimmed_trim rest⟩
  · intro hd
    obtain ⟨app, happ, hargs, -⟩ := of_parseApplicationList_xml hd happs
    exact ⟨app, happ, hargs⟩
  · intro hd
    rw [hd] at happs
    exact inline_of_parse happs
  · exact isToken_fields_of_fromArgs h fun arg harg ↦ htokens arg (by simp [harg])

end Read

end Originate

/-! ## What is read back -/

/-- The parenthesis that is written is the first one, and the token has a space, so that
it is quoted, or closes its quotes. -/
def Application.XmlStable (app : Application) : Prop :=
  '(' ∉ app.name ∧ (' ' ∈ app.name ∨ ' ' ∈ app.argText ∨
    quoteAfter '\'' '\\' none false (app.name ++ '(' :: app.argText) = false)

/-- With a space the list is quoted, and it must not escape the last quote.  Without one
its own quotes must not look like that. -/
def InlineStable (apps : List Application) : Prop :=
  apps ≠ [] ∧
    if ∃ app ∈ apps, ' ' ∈ app.name ∨ ' ' ∈ app.argText then
      apps.getLast?.bind (·.argText.getLast?) ≠ some '\\'
    else
      apps.head?.bind (·.name.head?) ≠ some '\'' ∨
        apps.getLast?.bind (·.argText.getLast?) ≠ some '\''

structure Originate.Stable (o : Originate) : Prop where
  vars : ∀ uri v, o.endpoint = .generic uri (some v) → QuotesClose v uri ∧ v.Stable
  xml : o.dialplan ≠ some .inline → ∀ app ∈ o.applications, app.XmlStable
  inline : o.dialplan = some .inline → InlineStable o.applications

theorem xmlStable_iff {app : Application} {dialplan : Option DialplanType}
    (hd : dialplan ≠ some .inline) (hargs : app.args ≠ some []) :
    app.XmlStable ↔ IsToken ' ' (originateQuote (app.toStringWithDialplan .xml)) ∧
      parseApplicationList (originateUnquote (originateQuote (app.toStringWithDialplan .xml)))
        dialplan = .ok [app] := by
  have hparse : parseApplicationList (app.toStringWithDialplan .xml) dialplan = .ok [app] ↔
      '(' ∉ app.name := by
    constructor
    · intro h
      obtain ⟨app', happ, -, hname⟩ := of_parseApplicationList_xml hd h
      obtain rfl := List.singleton_inj.mp happ
      exact hname rfl
    · intro hname
      rw [parseApplicationList_xml hd hname]
      obtain ⟨name, args⟩ := app
      cases args with
      | none => rfl
      | some args =>
          have hne : args ≠ [] := fun h ↦ hargs (congrArg some h)
          rw [Application.argText, Option.getD_some, if_neg hne]
  rw [originateUnquote_xml, hparse, isToken_xml_iff, Application.XmlStable, and_comm]

theorem inlineStable_iff {apps : List Application} (h : ∀ app ∈ apps, app.Inline)
    (hne : apps ≠ []) :
    InlineStable apps ↔ IsToken ' ' (originateQuote (inlineText apps)) ∧
      parseApplicationList (originateUnquote (originateQuote (inlineText apps)))
        (some .inline) = .ok apps := by
  have hbackslash := @getLast?_inlineText apps '\\' (by decide)
  have hlast := @getLast?_inlineText apps '\'' (by decide)
  have hhead := @head?_inlineText apps '\'' (by decide)
  rw [isToken_inlineText_iff h hne, parseApplicationList_unquote_iff h, InlineStable]
  simp only [ne_eq, hbackslash, hlast, hhead, space_mem_inlineText]
  split
  · rename_i hspace
    simp only [hne, hspace, not_false_eq_true, true_and, forall_const, true_or, and_true]
  · rename_i hspace
    simp only [hne, hspace, not_false_eq_true, true_and, false_or, IsEmpty.forall_iff]

namespace Originate

section ReadBack

variable {o : Originate} {line : Str}

theorem Readable.endpoint_trimmed (ho : o.Readable) :
    o.endpoint.display ≠ [] ∧ Trimmed o.endpoint.display := by
  rcases ho.endpoint with ⟨uri, he, -, htoken⟩ | ⟨uri, v, he, hv, huri⟩
  · rw [he]
    exact htoken.ne_nil_and_trimmed
  · rw [he, Endpoint.display_of_readable hv]
    refine ⟨?_, Endpoint.trimmed_dialString hv huri⟩
    rw [hv.display_eq]
    nofun

theorem Readable.endpoint_iff (ho : o.Readable) :
    (∀ uri v, o.endpoint = .generic uri (some v) → QuotesClose v uri ∧ v.Stable) ↔
      IsToken ' ' o.endpoint.display ∧
        Endpoint.fromStr o.endpoint.display = .ok o.endpoint := by
  rcases ho.endpoint with ⟨uri, he, hbrace, htoken⟩ | ⟨uri, v, he, hv, huri⟩
  · rw [he]
    apply iff_of_true
    · nofun
    · exact ⟨htoken, if_neg hbrace⟩
  · rw [he, Endpoint.display_of_readable hv, Endpoint.isToken_dialString_iff hv huri,
      Endpoint.fromStr_dialString_iff hv huri, hv.fromStr_display_iff]
    constructor
    · exact fun h ↦ h uri v rfl
    · rintro h uri' v' heq
      cases heq
      exact h

/-- The line starts with the endpoint if its first token is read as the endpoint. -/
theorem Readable.isToken_endpoint (ho : o.Readable) {endpointStr : Str} {tokens : List Str}
    (hsplit : originateSplit (o.endpoint.display ++ ' ' :: line) ' ' = .ok (endpointStr :: tokens))
    (hread : Endpoint.fromStr endpointStr = .ok o.endpoint) :
    IsToken ' ' o.endpoint.display ∧
      Endpoint.fromStr o.endpoint.display = .ok o.endpoint := by
  rcases ho.endpoint with ⟨uri, he, hbrace, htoken⟩ | ⟨uri, v, he, hv, huri⟩
  · rw [he]
    exact ⟨htoken, if_neg hbrace⟩
  · have htoken := isToken_of_originateSplit (by decide) hsplit List.mem_cons_self
    obtain ⟨u, hu, heq⟩ := exists_prefix_of_split hsplit
    rw [he] at hread hu ⊢
    rw [Endpoint.display_of_readable hv] at hu ⊢
    have hstart : trimStart u = u := by
      cases u with
      | nil => rfl
      | cons c u =>
          rw [hv.display_eq] at hu
          obtain ⟨rfl, -⟩ := List.cons_prefix_cons.mp hu
          exact trimStart_cons_of_not (by decide) u
    have hprefix : endpointStr <+: v.display ++ uri ++ ' ' :: line := by
      rw [heq, List.nil_append, trim, hstart]
      exact (List.rdropWhile_prefix _ _).trans hu
    obtain rfl := Endpoint.eq_dialString_of_prefix hv htoken.trimmed hprefix hread
    exact ⟨htoken, hread⟩

theorem Readable.of_fromStr_line (ho : o.Readable)
    (hline : Trimmed (o.endpoint.display ++ ' ' :: line))
    (h : fromStr ("originate".toList ++ ' ' :: (o.endpoint.display ++ ' ' :: line)) = .ok o) :
    (IsToken ' ' o.endpoint.display ∧
      Endpoint.fromStr o.endpoint.display = .ok o.endpoint) ∧
      ∃ appArg args, originateSplitLoop ' ' (some ' ') [] false line = .ok (appArg :: args) ∧
        fromArgs o.endpoint (originateUnquote appArg) args = .ok o := by
  rw [fromStr_line hline] at h
  obtain ⟨tokens, hsplit, h⟩ := bind_eq_ok.mp h
  obtain ⟨endpointStr, appArg, args, rfl, hread, h⟩ := of_fromTokens h
  have hendpoint := ho.isToken_endpoint hsplit hread
  refine ⟨hendpoint, appArg, args, ?_, h⟩
  rw [originateSplit, hendpoint.1.split_cons (by decide)] at hsplit
  cases hrest : originateSplitLoop ' ' (some ' ') [] false line with
  | error e =>
      rw [hrest] at hsplit
      cases hsplit
  | ok tokens =>
      rw [hrest] at hsplit
      obtain ⟨-, rfl⟩ := List.cons.inj (Except.ok.inj hsplit)
      rfl

theorem Readable.quoteAfter_fields (ho : o.Readable) :
    ∀ field ∈ o.fields, quoteAfter '\'' '\\' none false field = false :=
  fun field hfield ↦ quoteAfter_of_scanToken (ho.isToken_fields field hfield).closed

/-- A command is read back part by part.  The quotes of the line and those behind the
application token are closed, so those of this token are. -/
theorem Readable.fromStr_eq_ok_iff (ho : o.Readable) {apps : Str} (hne : apps ≠ [])
    (happs : Trimmed apps) :
    fromStr ("originate".toList ++ ' ' :: [' '].intercalate
        (o.endpoint.display :: originateQuote apps :: o.fields)) = .ok o ↔
      (IsToken ' ' o.endpoint.display ∧
        Endpoint.fromStr o.endpoint.display = .ok o.endpoint) ∧
        IsToken ' ' (originateQuote apps) ∧
          parseApplicationList (originateUnquote (originateQuote apps)) o.dialplan =
            .ok o.applications := by
  have hreads : ∀ hendpoint : IsToken ' ' o.endpoint.display ∧
      Endpoint.fromStr o.endpoint.display = .ok o.endpoint,
      IsToken ' ' (originateQuote apps) → _ := fun hendpoint htoken ↦
    fromStr_of_isToken ho.positional hendpoint.1 hendpoint.2 htoken ho.isToken_fields
  constructor
  · intro h
    have htrimmed : ∀ t ∈ o.endpoint.display :: originateQuote apps :: o.fields,
        t ≠ [] ∧ Trimmed t := by
      intro t ht
      rcases List.mem_cons.mp ht with rfl | ht
      · exact ho.endpoint_trimmed
      · rcases List.mem_cons.mp ht with rfl | ht
        · exact ⟨originateQuote_ne_nil hne, trimmed_originateQuote happs⟩
        · exact (ho.isToken_fields t ht).ne_nil_and_trimmed
    have hline := trimmed_intercalate ' ' htrimmed
    have hread := h
    rw [intercalate_cons (List.cons_ne_nil _ _)] at hline hread
    obtain ⟨hendpoint, appArg, args, hsplit, -⟩ := ho.of_fromStr_line hline hread
    have hclosed := quoteAfter_of_split (fun hc ↦ absurd hc (by decide)) hsplit
    rw [quoteAfter_intercalate_cons (by decide) (by decide) ho.quoteAfter_fields,
      quoteAfter_none (by decide)] at hclosed
    have htoken := (isToken_originateQuote_iff hne happs).mpr hclosed
    refine ⟨hendpoint, htoken, ?_⟩
    rw [hreads hendpoint htoken] at h
    obtain ⟨read, hparse, h⟩ := bind_eq_ok.mp h
    have hsame : read = o.applications := congrArg Originate.applications (Except.ok.inj h)
    rwa [hsame] at hparse
  · rintro ⟨hendpoint, htoken, hparse⟩
    rw [hreads hendpoint htoken, hparse]
    rfl

/-- Behind an empty list the name of the dialplan is taken for the application. -/
theorem Readable.not_fromStr_of_nil (ho : o.Readable) (hd : o.dialplan = some .inline)
    (happs : o.applications = []) :
    fromStr ("originate".toList ++ ' ' :: [' '].intercalate
      (o.endpoint.display :: [] :: o.fields)) ≠ .ok o := by
  intro h
  obtain ⟨rest, hrest⟩ : ∃ rest, o.fields = ('i' :: "nline".toList) :: rest := by
    rw [fields_eq, hd]
    exact ⟨_, rfl⟩
  have hfields : Trimmed ([' '].intercalate o.fields) :=
    trimmed_intercalate ' ' fun t ht ↦ (ho.isToken_fields t ht).ne_nil_and_trimmed
  have htext : [' '].intercalate o.fields =
      'i' :: [' '].intercalate ("nline".toList :: rest) := by
    rw [hrest, List.intercalate_cons_cons_left]
  have hne : o.fields ≠ [] := by simp [hrest]
  have hline : Trimmed (o.endpoint.display ++ ' ' :: ' ' :: [' '].intercalate o.fields) := by
    have hend : trimEnd (' ' :: ' ' :: [' '].intercalate o.fields) =
        ' ' :: ' ' :: [' '].intercalate o.fields := by
      have hspaces : ' ' :: ' ' :: [' '].intercalate o.fields =
          [' ', ' '] ++ [' '].intercalate o.fields := rfl
      rw [hspaces, trimEnd_append, hfields.trimEnd_eq, if_neg (by simp [htext])]
    exact trimmed_append ho.endpoint_trimmed.2.trimStart_eq ho.endpoint_trimmed.1 hend
      (List.cons_ne_nil _ _)
  rw [intercalate_cons (List.cons_ne_nil _ _), intercalate_cons hne, List.nil_append] at h
  obtain ⟨-, appArg, args, hsplit, hread⟩ := ho.of_fromStr_line hline h
  have htoken : IsToken ' ' appArg :=
    isToken_of_mem (by decide) (Reading.nil (by decide)) hsplit List.mem_cons_self
  have hhead : appArg.head? = some 'i' := by
    obtain ⟨u, hu, heq⟩ := exists_prefix_of_split hsplit
    rw [htext] at hu
    rw [heq, List.nil_append]
    apply head?_trim_of_prefix (by decide) (by decide) hu
    rw [← List.nil_append u, ← heq]
    exact htoken.ne_nil
  obtain ⟨-, -, hparse, -⟩ := of_fromArgs hread
  rw [hd, happs, parseApplicationList_inline_eq_ok_iff,
    originateUnquote_of_head?_ne (by simp [hhead])] at hparse
  have hnil := trim_eq_nil_of_split hparse.1
  rw [List.nil_append, htoken.trim_eq] at hnil
  exact htoken.ne_nil hnil

theorem exists_display_iff {apps : Str}
    (h : applicationsToString o.applications (o.dialplan.getD .xml) = .ok apps) :
    (∃ text, o.display = some text ∧ fromStr text = .ok o) ↔
      fromStr ("originate".toList ++ ' ' :: [' '].intercalate
        (o.endpoint.display :: originateQuote apps :: o.fields)) = .ok o := by
  rw [display_of_ok h]
  constructor
  · rintro ⟨text, htext, hread⟩
    obtain rfl := Option.some.inj htext
    exact hread
  · exact fun hread ↦ ⟨_, rfl, hread⟩

theorem Readable.stable_iff_inline (ho : o.Readable) (hd : o.dialplan = some .inline) :
    (∃ text, o.display = some text ∧ fromStr text = .ok o) ↔
      (∀ uri v, o.endpoint = .generic uri (some v) → QuotesClose v uri ∧ v.Stable) ∧
        InlineStable o.applications := by
  have htext : applicationsToString o.applications (o.dialplan.getD .xml) =
      .ok (inlineText o.applications) := by
    rw [hd]
    rfl
  rw [exists_display_iff htext]
  by_cases happs : o.applications = []
  · rw [happs]
    apply iff_of_false
    · exact ho.not_fromStr_of_nil hd happs
    · exact fun h ↦ h.2.1 rfl
  · have hinline := ho.inline hd
    have hne := List.ne_nil_of_mem (colon_mem_inlineText happs)
    rw [ho.fromStr_eq_ok_iff hne (trimmed_inlineText hinline), ho.endpoint_iff,
      inlineStable_iff hinline happs, hd]

theorem Readable.stable_iff_xml (ho : o.Readable) (hd : o.dialplan ≠ some .inline) :
    (∃ text, o.display = some text ∧ fromStr text = .ok o) ↔
      (∀ uri v, o.endpoint = .generic uri (some v) → QuotesClose v uri ∧ v.Stable) ∧
        ∀ app ∈ o.applications, app.XmlStable := by
  obtain ⟨app, happs, hargs⟩ := ho.xml hd
  have hne : app.toStringWithDialplan .xml ≠ [] := by
    rw [toStringWithDialplan_xml]
    exact List.cons_ne_nil _ _
  rw [exists_display_iff (applicationsToString_xml hd happs),
    ho.fromStr_eq_ok_iff hne (trimmed_xml app), ho.endpoint_iff, happs, List.forall_mem_singleton,
    xmlStable_iff hd hargs]

theorem Readable.isSome_display (ho : o.Readable) : o.display.isSome := by
  by_cases hd : o.dialplan = some .inline
  · rw [display, hd]
    rfl
  · obtain ⟨app, happs, -⟩ := ho.xml hd
    rw [display_of_ok (applicationsToString_xml hd happs)]
    rfl

end ReadBack

/-- A command that was accepted can be formatted, and it is read back exactly when it is
stable. -/
theorem reads_back_iff_stable {s : Str} {o : Originate} (h : fromStr s = .ok o) :
    o.display.isSome ∧
      ((∃ text, o.display = some text ∧ fromStr text = .ok o) ↔ o.Stable) := by
  have ho := readable_of_fromStr h
  refine ⟨ho.isSome_display, ?_⟩
  by_cases hd : o.dialplan = some .inline
  · rw [ho.stable_iff_inline hd]
    constructor
    · exact fun ⟨hvars, happs⟩ ↦ ⟨hvars, fun hxml ↦ absurd hd hxml, fun _ ↦ happs⟩
    · exact fun hstable ↦ ⟨hstable.vars, hstable.inline hd⟩
  · rw [ho.stable_iff_xml hd]
    constructor
    · exact fun ⟨hvars, happs⟩ ↦ ⟨hvars, fun _ ↦ happs, fun hinline ↦ absurd hinline hd⟩
    · exact fun hstable ↦ ⟨hstable.vars, hstable.xml hd⟩

/-- A call to an extension. -/
def callExtension (extension : Str) : Originate where
  endpoint := .generic "user/1".toList none
  applications := [⟨extension, none⟩]
  dialplan := none
  context := none
  cidName := none
  cidNum := none
  timeout := none

theorem fromStr_callExtension :
    fromStr "originate user/1 100".toList = .ok (callExtension "100".toList) ∧
      fromStr "originate user/1 a(b".toList = .ok (callExtension "a(b".toList) := by
  decide +kernel

theorem reads_back_iff_stable_callExtension :
    (callExtension "100".toList).display.isSome ∧
      ((∃ text, (callExtension "100".toList).display = some text ∧
        fromStr text = .ok (callExtension "100".toList)) ↔ (callExtension "100".toList).Stable) :=
  reads_back_iff_stable fromStr_callExtension.1

/-- An extension with a parenthesis is read back as an application with arguments. -/
theorem not_reads_back_parenthesis :
    ¬ ∀ (s : Str) (o : Originate), fromStr s = .ok o →
      ∃ text, o.display = some text ∧ fromStr text = .ok o := by
  intro h
  obtain ⟨text, htext, hread⟩ := h _ _ fromStr_callExtension.2
  have hwritten : (callExtension "a(b".toList).display =
      some "originate user/1 &a(b()".toList := by decide +kernel
  have hargs : ((fromStr "originate user/1 &a(b()".toList).toOption.bind
      fun o ↦ o.applications.head?.bind Application.args) = some "b(".toList := by
    decide +kernel
  rw [hwritten] at htext
  obtain rfl := Option.some.inj htext
  rw [hread] at hargs
  cases hargs

end Originate

end FreeswitchEsl
