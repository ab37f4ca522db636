import FreeswitchEsl.Originate.DialString
import FreeswitchEsl.Originate.Positions
import Mathlib.Data.List.Forall2
import Mathlib.Data.Bool.AllAny

/-!
# Commands that are read back

A command is read back if each of its parts is one token of the line and is read back by
itself.  A clean command is one where no text is taken for the syntax around it.
-/

namespace FreeswitchEsl

open Quoting Text

namespace Originate

/-! ## Reading the parts -/

section Parts

variable {o : Originate}

/-- The fields are read at the positions where they were written. -/
theorem Positional.fromArgs_fields (ho : o.Positional) (endpoint : Endpoint) (appStr : Str) :
    fromArgs endpoint appStr o.fields = do
      let apps ← parseApplicationList appStr o.dialplan
      return { o with endpoint := endpoint, applications := apps } := by
  obtain ⟨⟨hcontext, hname, hnum⟩, htimeout⟩ := ho.reads_positional
  rw [fromArgs, ho.dialplanOf_fields]
  dsimp only
  rw [fields_behind_dialplan]
  simp only [nextArg, hcontext, hname, hnum, htimeout]
  rfl

theorem fromStr_of_isToken {apps : Str} (ho : o.Positional)
    (hendpoint : IsToken ' ' o.endpoint.display)
    (hread : Endpoint.fromStr o.endpoint.display = .ok o.endpoint)
    (happs : IsToken ' ' (originateQuote apps)) (hfields : ∀ field ∈ o.fields, IsToken ' ' field) :
    fromStr ("originate".toList ++ ' ' :: [' '].intercalate
        (o.endpoint.display :: originateQuote apps :: o.fields)) = do
      let apps ← parseApplicationList (originateUnquote (originateQuote apps)) o.dialplan
      return { o with applications := apps } := by
  have htokens : ∀ t ∈ o.endpoint.display :: originateQuote apps :: o.fields, IsToken ' ' t := by
    intro t ht
    rcases List.mem_cons.mp ht with rfl | ht
    · exact hendpoint
    · rcases List.mem_cons.mp ht with rfl | ht
      · exact happs
      · exact hfields t ht
  rw [fromStr_tokens htokens, fromTokens_cons_cons hread, ho.fromArgs_fields]

end Parts

end Originate

/-! ## Clean texts -/

/-- A text without whitespace and without the given characters. -/
def Plain (syntaxChars s : Str) : Prop := ∀ c ∈ s, isWhitespace c = false ∧ c ∉ syntaxChars

instance (syntaxChars s : Str) : Decidable (Plain syntaxChars s) :=
  decidable_of_iff (s.all (fun c ↦ isWhitespace c = false ∧ c ∉ syntaxChars) = true)
    (by simp [Plain])

section Plain

variable {syntaxChars s : Str}

theorem Plain.notMem (h : Plain syntaxChars s) {c : Char} (hc : c ∈ syntaxChars) : c ∉ s :=
  fun hmem ↦ (h c hmem).2 hc

theorem Plain.mono {chars : Str} (h : Plain syntaxChars s)
    (hchars : chars.all (fun c ↦ c ∈ syntaxChars) = true) : Plain chars s := by
  intro c hc
  refine ⟨(h c hc).1, fun hmem ↦ (h c hc).2 ?_⟩
  exact List.all_iff_forall_prop.mp hchars c hmem

theorem Plain.space_notMem (h : Plain syntaxChars s) : ' ' ∉ s :=
  fun hmem ↦ absurd (h _ hmem).1 (by decide)

theorem Plain.word (h : Plain syntaxChars s) (hquote : '\'' ∈ syntaxChars) (hne : s ≠ []) :
    Word s := by
  refine ⟨hne, fun c hc ↦ ⟨(h c hc).1, ?_⟩⟩
  rintro rfl
  exact h.notMem hquote hc

theorem scanQuotes_of_plain (h : Plain syntaxChars s) (hquote : '\'' ∈ syntaxChars)
    (prev : Option Char) (q : Bool) : scanQuotes '\'' '\\' ' ' prev q s = some q := by
  rw [scanQuotes_of_notMem h.space_notMem, quoteAfter_of_notMem (h.notMem hquote)]

end Plain

structure Variables.Clean (v : Variables) : Prop where
  varsType : v.varsType = .default
  ne_nil : v.inner ≠ []
  key : ∀ p ∈ v.inner, p.1 ≠ [] ∧ Plain "=,'\\\x7b\x7d".toList p.1
  value : ∀ p ∈ v.inner, '\\' ∉ p.2 ∧ '}' ∉ p.2

namespace Variables

variable {v : Variables} {uri : Str}

theorem Clean.readable (h : v.Clean) : v.Readable where
  varsType := h.varsType
  ne_nil := h.ne_nil
  key p hp := by
    have hplain := (h.key p hp).2
    refine ⟨hplain.notMem (by decide), hplain.notMem (by decide), ?_⟩
    exact escaped_of_notMem (hplain.notMem (by decide)) none
  value p hp := (h.value p hp).2

theorem Clean.getLast?_ne (h : v.Clean) {p : Str × Str} (hp : p ∈ v.inner) :
    p.2.getLast? ≠ some '\\' :=
  fun hlast ↦ (h.value p hp).1 (List.mem_of_getLast? hlast)

theorem Clean.foldlM_variableQuotes (h : v.Clean) : v.inner.foldlM variableQuotes false =
    some false := by
  have hall : ∀ p ∈ v.inner, variableQuotes false p = some false := by
    intro p hp
    rw [variableQuotes, scanQuotes_of_plain (h.key p hp).2 (by decide), Option.bind_some,
      valueQuotes]
    simp [h.getLast?_ne hp]
  generalize v.inner = l at hall
  induction l with
  | nil => rfl
  | cons p l ih =>
      rw [List.foldlM_cons, hall p List.mem_cons_self]
      exact ih fun q hq ↦ hall q (List.mem_cons_of_mem _ hq)

theorem Clean.quotesClose (h : v.Clean) (huri : Plain "'\x7b\x7d".toList uri) :
    QuotesClose v uri := by
  rw [QuotesClose, h.foldlM_variableQuotes]
  exact scanQuotes_of_plain huri (by decide) none false

theorem Clean.fromStr_display (h : v.Clean) : fromStr v.display = .ok v := by
  rw [h.readable.fromStr_display_iff]
  rintro p hp ⟨hlast, -⟩
  exact h.getLast?_ne (List.dropLast_subset _ hp) hlast

end Variables

/-- The application of a clean command in XML form. -/
structure Application.CleanXml (app : Application) : Prop where
  name : Plain "'(".toList app.name
  args : ' ' ∈ app.argText ∨ '\'' ∉ app.argText

/-- An application of a clean command with the inline dialplan. -/
structure Application.CleanInline (app : Application) : Prop where
  name_ne_nil : app.name ≠ []
  name : Plain ":,'\\".toList app.name
  args : ∀ c ∈ app.argText, c ∉ ",'\\".toList
  args_trimmed : trimEnd app.argText = app.argText

/-- Equal up to absent and empty arguments. -/
def Application.Same (app app' : Application) : Prop :=
  app.name = app'.name ∧ app.argText = app'.argText

namespace Application

variable {app : Application} {apps : List Application}

theorem CleanXml.isToken (h : app.CleanXml) :
    IsToken ' ' (originateQuote (app.toStringWithDialplan .xml)) := by
  rw [isToken_xml_iff]
  rcases h.args with hspace | hquote
  · exact Or.inr (Or.inl hspace)
  · refine Or.inr (Or.inr (quoteAfter_of_notMem ?_ none false))
    simp [h.name.notMem (c := '\'') (by decide), hquote]

/-- An application in XML form is read back, whatever its arguments. -/
theorem parse_xml {dialplan : Option DialplanType} (hd : dialplan ≠ some .inline)
    (hname : '(' ∉ app.name) :
    ∃ app', parseApplicationList (app.toStringWithDialplan .xml) dialplan = .ok [app'] ∧
      app.Same app' := by
  refine ⟨_, parseApplicationList_xml hd hname, rfl, ?_⟩
  by_cases hargs : app.argText = []
  · rw [hargs]
    rfl
  · rw [if_neg hargs]
    rfl

theorem CleanXml.parse (h : app.CleanXml) {dialplan : Option DialplanType}
    (hd : dialplan ≠ some .inline) :
    ∃ app', parseApplicationList (app.toStringWithDialplan .xml) dialplan = .ok [app'] ∧
      app.Same app' := by
  exact parse_xml hd (h.name.notMem (by decide))

/-- The application as it is read, with its arguments present. -/
def withArgs (app : Application) : Application := ⟨app.name, some app.argText⟩

/-- Every comma of the arguments is in quotes, and the quotes are closed. -/
def CommasQuoted (app : Application) : Prop :=
  scanQuotes '\'' '\\' ',' none false app.argText = some false

instance (app : Application) : Decidable app.CommasQuoted :=
  inferInstanceAs (Decidable (_ = some false))

theorem commasQuoted_iff (hquote : '\'' ∉ app.argText) : app.CommasQuoted ↔ ',' ∉ app.argText := by
  have hescaped := @escaped_of_notMem _ '\\' _ _ hquote none
  rw [CommasQuoted]
  by_cases hcomma : ',' ∈ app.argText
  · rw [scanQuotes_false_of_mem hescaped hcomma]
    simpa using hcomma
  · rw [scanQuotes_of_notMem hcomma, quoteAfter_of_escaped hescaped]
    simpa using hcomma

/-- An application is one token of the list if its arguments keep their commas. -/
theorem inline_withArgs_iff (hne : app.name ≠ []) (hname : Plain ":,'".toList app.name)
    (hargs : trimEnd app.argText = app.argText) : app.withArgs.Inline ↔ app.CommasQuoted := by
  have htext : app.withArgs.toStringWithDialplan .inline = app.name ++ ':' :: app.argText := rfl
  have hcomma : ',' ∉ app.name := hname.notMem (by decide)
  have hhead : (app.name ++ ':' :: app.argText).head? ≠ some ',' := by
    rw [List.head?_append_of_ne_nil _ hne]
    exact fun hhead ↦ hcomma (List.mem_of_mem_head? hhead)
  have hscan : scanToken '\'' '\\' ',' (app.name ++ ':' :: app.argText) =
      scanQuotes '\'' '\\' ',' none false app.argText := by
    rw [scanToken_eq hhead, scanQuotes_append, scanQuotes_of_notMem hcomma,
      quoteAfter_of_notMem (hname.notMem (by decide)), Option.bind_some,
      scanQuotes_cons_of_ne (by decide) (by decide), scanQuotes_none (by decide)]
  constructor
  · intro h
    have hclosed := h.isToken.closed
    rwa [htext, hscan] at hclosed
  · intro h
    have hstart : trimStart app.name = app.name :=
      (trimmed_of_forall fun c hc ↦ (hname c hc).1).trimStart_eq
    refine ⟨⟨?_, ?_, ?_⟩, hname.notMem (by decide), rfl⟩
    · exact toStringWithDialplan_inline_ne_nil _
    · rw [htext]
      apply trimmed_append hstart hne
      · rw [trimEnd_cons_of_not (by decide), hargs]
      · exact List.cons_ne_nil _ _
    · rw [htext, hscan]
      exact h

theorem CleanInline.inline (h : app.CleanInline) : app.withArgs.Inline := by
  have hname : Plain ":,'".toList app.name := h.name.mono (by decide)
  apply (inline_withArgs_iff h.name_ne_nil hname h.args_trimmed).mpr
  apply (commasQuoted_iff ?_).mpr
  · exact fun hmem ↦ h.args _ hmem (by decide)
  · exact fun hmem ↦ h.args _ hmem (by decide)

theorem notMem_inlineText (h : ∀ app ∈ apps, app.CleanInline) {c : Char}
    (hname : c ∈ ":,'\\".toList) (hargs : c ∈ ",'\\".toList) (hcolon : c ≠ ':')
    (hcomma : c ≠ ',') : c ∉ inlineText apps := by
  intro hmem
  rcases of_mem_intercalate hmem with hmem | ⟨part, hpart, hmem⟩
  · exact hcomma hmem
  · obtain ⟨app, happ, rfl⟩ := List.mem_map.mp hpart
    rcases List.mem_append.mp hmem with hmem | hmem
    · exact (h app happ).name.notMem hname hmem
    · rcases List.mem_cons.mp hmem with hmem | hmem
      · exact hcolon hmem
      · exact (h app happ).args c hmem hargs

theorem inlineText_map_withArgs (apps : List Application) :
    inlineText (apps.map withArgs) = inlineText apps := by
  rw [inlineText, inlineText, List.map_map]
  rfl

theorem forall₂_same_withArgs (apps : List Application) :
    List.Forall₂ Same apps (apps.map withArgs) := by
  rw [List.forall₂_map_right_iff, List.forall₂_same]
  exact fun app _ ↦ ⟨rfl, rfl⟩

/-! ### Lists of applications -/

/-- An application whose name has no syntax of the two forms, with trimmed arguments. -/
structure Listed (app : Application) : Prop where
  name_ne_nil : app.name ≠ []
  name : Plain ":,(&'".toList app.name
  args : Trimmed app.argText

theorem Same.toStringWithDialplan_eq {app' : Application} (h : app.Same app')
    (dialplan : DialplanType) :
    app.toStringWithDialplan dialplan = app'.toStringWithDialplan dialplan := by
  obtain ⟨hname, hargs⟩ := h
  cases dialplan with
  | inline => rw [toStringWithDialplan_inline, toStringWithDialplan_inline, hname, hargs]
  | xml => rw [toStringWithDialplan_xml, toStringWithDialplan_xml, hname, hargs]

theorem exists_same_of_forall₂ {apps' : List Application} (h : List.Forall₂ Same apps apps')
    (happ : app ∈ apps) : ∃ app' ∈ apps', app.Same app' := by
  induction h with
  | nil => cases happ
  | cons hsame hrest ih =>
      rcases List.mem_cons.mp happ with rfl | happ
      · exact ⟨_, List.mem_cons_self, hsame⟩
      · obtain ⟨app', hmem, hsame'⟩ := ih happ
        exact ⟨app', List.mem_cons_of_mem _ hmem, hsame'⟩

theorem parse_inlineText_iff (h : ∀ app ∈ apps, app.Listed) :
    (∃ apps', parseApplicationList (inlineText apps) (some .inline) = .ok apps' ∧
      List.Forall₂ Same apps apps') ↔ ∀ app ∈ apps, app.CommasQuoted := by
  have hinline : ∀ app ∈ apps, app.withArgs.Inline ↔ app.CommasQuoted := by
    intro app happ
    have hlisted := h app happ
    exact inline_withArgs_iff hlisted.name_ne_nil (hlisted.name.mono (by decide))
      hlisted.args.trimEnd_eq
  constructor
  · rintro ⟨apps', hparse, hsame⟩ app happ
    obtain ⟨app', hmem, hsame'⟩ := exists_same_of_forall₂ hsame happ
    have hread := inline_of_parse hparse app' hmem
    refine (hinline app happ).mp ⟨?_, (h app happ).name.notMem (by decide), rfl⟩
    have htext : app.withArgs.toStringWithDialplan .inline = app'.toStringWithDialplan .inline :=
      hsame'.toStringWithDialplan_eq .inline
    rw [htext]
    exact hread.isToken
  · intro hquoted
    refine ⟨apps.map withArgs, ?_, forall₂_same_withArgs apps⟩
    rw [← inlineText_map_withArgs]
    apply parseApplicationList_inlineText
    intro full hfull
    obtain ⟨app, happ, rfl⟩ := List.mem_map.mp hfull
    exact (hinline app happ).mpr (hquoted app happ)

/-- A list of applications is read back exactly when, in the inline form, no argument has
a comma outside quotes. -/
theorem parse_applicationsToString_iff {dialplan : DialplanType} {text : Str}
    (h : ∀ app ∈ apps, app.Listed) (htext : applicationsToString apps dialplan = .ok text) :
    (∃ apps', parseApplicationList text (some dialplan) = .ok apps' ∧
      List.Forall₂ Same apps apps') ↔
      (dialplan = .inline → ∀ app ∈ apps, app.CommasQuoted) := by
  cases dialplan with
  | inline =>
      obtain rfl := Except.ok.inj htext
      rw [forall_prop_of_true rfl]
      exact parse_inlineText_iff h
  | xml =>
      have hxml : some DialplanType.xml ≠ some .inline := nofun
      refine iff_of_true ?_ nofun
      rcases apps with _ | ⟨app, _ | ⟨other, apps⟩⟩
      · cases htext
      · obtain rfl := Except.ok.inj htext
        have hname : '(' ∉ app.name := (h app List.mem_cons_self).name.notMem (by decide)
        obtain ⟨app', hparse, hsame⟩ := parse_xml hxml hname
        exact ⟨[app'], hparse, .cons hsame .nil⟩
      · cases htext

/-- Two applications of an inline list. -/
def greeting (file : Str) : List Application :=
  [⟨"playback".toList, some file⟩, ⟨"hangup".toList, none⟩]

theorem listed_greeting {file : Str} (h : Trimmed file) : ∀ app ∈ greeting file, app.Listed := by
  have hname : Plain ":,(&'".toList "playback".toList := by decide
  intro app happ
  rcases List.mem_cons.mp happ with rfl | happ
  · exact ⟨List.cons_ne_nil _ _, hname, h⟩
  · obtain rfl := List.mem_singleton.mp happ
    exact ⟨List.cons_ne_nil _ _, by decide, trim_nil⟩

theorem parse_applicationsToString_iff_greeting :
    (∃ apps', parseApplicationList "playback:a.wav,hangup:".toList (some .inline) = .ok apps' ∧
      List.Forall₂ Same (greeting "a.wav".toList) apps') ↔
      (DialplanType.inline = .inline → ∀ app ∈ greeting "a.wav".toList, app.CommasQuoted) :=
  parse_applicationsToString_iff (listed_greeting (by decide)) (by decide)

example : CommasQuoted ⟨"set".toList, some "x='a,b'".toList⟩ ∧
    ¬ CommasQuoted ⟨"set".toList, some "x=a,b".toList⟩ := by
  decide

theorem not_parse_applicationsToString_comma :
    ¬ ∀ (apps : List Application) (dialplan : DialplanType) (text : Str),
      (∀ app ∈ apps, app.Listed) → applicationsToString apps dialplan = .ok text →
        ∃ apps', parseApplicationList text (some dialplan) = .ok apps' ∧
          List.Forall₂ Same apps apps' := by
  intro h
  have htext : applicationsToString (greeting "a,b".toList) .inline =
      .ok "playback:a,b,hangup:".toList := by decide
  obtain ⟨apps', hparse, -⟩ := h _ _ _ (listed_greeting (by decide)) htext
  have hread : (parseApplicationList "playback:a,b,hangup:".toList (some .inline)).toOption =
      none := by decide +kernel
  rw [hparse] at hread
  cases hread

end Application

/-! ## Clean commands -/

namespace Originate

/-- A command whose texts are free of the syntax around them. -/
structure Clean (o : Originate) (uri : Str) (vars : Option Variables) : Prop where
  endpoint_eq : o.endpoint = .generic uri vars
  uri_ne_nil : uri ≠ []
  uri : Plain "'\x7b\x7d".toList uri
  vars : ∀ v, vars = some v → v.Clean
  xml : o.dialplan ≠ some .inline → ∃ app, o.applications = [app] ∧ app.CleanXml
  inline : o.dialplan = some .inline →
    o.applications ≠ [] ∧ ∀ app ∈ o.applications, app.CleanInline
  context : o.dialplan = none → o.context = none
  cidName : o.context = none → o.cidName = none
  cidNum : o.cidName = none → o.cidNum = none
  timeout : o.cidNum = none → o.timeout = none
  context_word : ∀ s, o.context = some s → Word s
  cidName_word : ∀ s, o.cidName = some s → Word s
  cidNum_word : ∀ s, o.cidNum = some s → Word s

section Clean

variable {o : Originate} {uri : Str} {vars : Option Variables} (ho : o.Clean uri vars)

include ho

theorem Clean.positional : o.Positional where
  context h := by
    have hname := ho.cidName h
    have hnum := ho.cidNum hname
    exact ⟨hname, hnum, ho.timeout hnum⟩
  cidName h := by
    have hnum := ho.cidNum h
    exact ⟨hnum, ho.timeout hnum⟩
  cidNum := ho.timeout
  dialplan h := by simp [ho.context h]

theorem Clean.isToken_fields : ∀ field ∈ o.fields, IsToken ' ' field := by
  have hword : ∀ w, Word w → IsToken ' ' w := fun w hw ↦ hw.isToken hw.space_notMem
  apply forall_mem_fields hword
  · exact fun s hs ↦ hword s (ho.context_word s hs)
  · exact fun s hs ↦ hword s (ho.cidName_word s hs)
  · exact fun s hs ↦ hword s (ho.cidNum_word s hs)

theorem Clean.endpoint_reads : IsToken ' ' o.endpoint.display ∧
    Endpoint.fromStr o.endpoint.display = .ok o.endpoint := by
  have huri := ho.uri.word (by decide) ho.uri_ne_nil
  rw [ho.endpoint_eq]
  cases hvars : vars with
  | none =>
      refine ⟨huri.isToken huri.space_notMem, ?_⟩
      exact if_neg (ho.uri.notMem (by decide))
  | some v =>
      have hv := ho.vars v hvars
      rw [Endpoint.display_of_readable hv.readable]
      constructor
      · apply (Endpoint.isToken_dialString_iff hv.readable huri.trimmed).mpr
        exact hv.quotesClose ho.uri
      · apply (Endpoint.fromStr_dialString_iff hv.readable huri.trimmed).mpr
        exact hv.fromStr_display

theorem Clean.applications_read : ∃ text apps,
    applicationsToString o.applications (o.dialplan.getD .xml) = .ok text ∧
      IsToken ' ' (originateQuote text) ∧
        parseApplicationList (originateUnquote (originateQuote text)) o.dialplan = .ok apps ∧
          List.Forall₂ Application.Same o.applications apps := by
  by_cases hd : o.dialplan = some .inline
  · obtain ⟨hne, hclean⟩ := ho.inline hd
    have hinline : ∀ app ∈ o.applications.map Application.withArgs, app.Inline := by
      intro app happ
      obtain ⟨clean, hmem, rfl⟩ := List.mem_map.mp happ
      exact (hclean clean hmem).inline
    have hnemap : o.applications.map Application.withArgs ≠ [] := by simpa using hne
    have hlast : (inlineText o.applications).getLast? ≠ some '\\' := fun h ↦
      Application.notMem_inlineText hclean (by decide) (by decide) (by decide) (by decide)
        (List.mem_of_getLast? h)
    have hhead : (inlineText o.applications).head? ≠ some '\'' := fun h ↦
      Application.notMem_inlineText hclean (by decide) (by decide) (by decide) (by decide)
        (List.mem_of_mem_head? h)
    have htoken := (isToken_inlineText_iff hinline hnemap).mpr
    have hparse := (parseApplicationList_unquote_iff hinline).mpr
    rw [Application.inlineText_map_withArgs] at htoken hparse
    rw [hd]
    refine ⟨_, _, rfl, htoken fun _ ↦ hlast, hparse (Or.inr (Or.inl hhead)), ?_⟩
    exact Application.forall₂_same_withArgs _
  · obtain ⟨app, happs, hclean⟩ := ho.xml hd
    obtain ⟨app', hparse, hsame⟩ := hclean.parse hd
    refine ⟨app.toStringWithDialplan .xml, [app'], ?_, hclean.isToken, ?_, ?_⟩
    · exact applicationsToString_xml hd happs
    · rw [originateUnquote_xml]
      exact hparse
    · rw [happs]
      exact .cons hsame .nil

/-- What is written for a clean command is read as the command. -/
theorem fromStr_display_of_clean : ∃ text apps, o.display = some text ∧
    fromStr text = .ok { o with applications := apps } ∧
      List.Forall₂ Application.Same o.applications apps := by
  obtain ⟨text, apps, htext, htoken, hparse, hsame⟩ := ho.applications_read
  obtain ⟨hendpoint, hread⟩ := ho.endpoint_reads
  refine ⟨_, apps, display_of_ok htext, ?_, hsame⟩
  rw [fromStr_of_isToken ho.positional hendpoint hread htoken ho.isToken_fields, hparse]
  rfl

end Clean

/-- A value and an argument with spaces, a comma and a quote. -/
def callWithNote : Originate where
  endpoint := .generic "sofia/internal/1000".toList
    (some ⟨.default, [("note".toList, "Bob, it's late".toList), ("n".toList, [])], by decide⟩)
  applications := [⟨"conference".toList, some "Bob's room".toList⟩]
  dialplan := some .xml
  context := some "default".toList
  cidName := none
  cidNum := none
  timeout := none

theorem clean_callWithNote : callWithNote.Clean "sofia/internal/1000".toList
    (some ⟨.default, [("note".toList, "Bob, it's late".toList), ("n".toList, [])], by decide⟩) where
  endpoint_eq := rfl
  uri_ne_nil := by decide
  uri := by decide
  vars v hv := by
    obtain rfl := Option.some.inj hv
    exact ⟨rfl, by decide, by decide, by decide⟩
  xml _ := ⟨_, rfl, by decide, Or.inl (by decide)⟩
  inline := nofun
  context := nofun
  cidName := nofun
  cidNum _ := rfl
  timeout _ := rfl
  context_word s hs := by
    obtain rfl := Option.some.inj hs
    decide
  cidName_word := nofun
  cidNum_word := nofun

theorem fromStr_display_callWithNote : ∃ text apps, callWithNote.display = some text ∧
    fromStr text = .ok { callWithNote with applications := apps } ∧
      List.Forall₂ Application.Same callWithNote.applications apps :=
  fromStr_display_of_clean clean_callWithNote

end Originate

end FreeswitchEsl
