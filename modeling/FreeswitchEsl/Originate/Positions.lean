import FreeswitchEsl.Originate.Applications

/-!
# The positions of the optional fields

The text of an originate command leaves absent fields out, and the parser
assigns the fields by position.  The two agree when no field stands behind an
absent one.
-/

namespace FreeswitchEsl

open Text

namespace Originate

/-! ## Originates made of words -/

/-- A word that is no syntax of application lists either; letters and digits are
all of this kind. -/
def AppWord (s : Str) : Prop :=
  s ≠ [] ∧ ∀ c ∈ s, isWhitespace c = false ∧ c ∉ "'(),:&".toList

/-- One application and a plain endpoint, with every text a word. -/
structure OfWords (o : Originate) (uri name args : Str) : Prop where
  endpoint_eq : o.endpoint = .generic uri none
  uri_word : Word uri
  uri_plain : '{' ∉ uri
  applications_eq : o.applications = [⟨name, some args⟩]
  name_word : AppWord name
  args_word : AppWord args
  context_word : ∀ s, o.context = some s → Word s
  cidName_word : ∀ s, o.cidName = some s → Word s
  cidNum_word : ∀ s, o.cidNum = some s → Word s

/-- No field is present behind an absent one, and without a dialplan the context
is not the name of one. -/
structure Positional (o : Originate) : Prop where
  context : o.context = none → o.cidName = none ∧ o.cidNum = none ∧ o.timeout = none
  cidName : o.cidName = none → o.cidNum = none ∧ o.timeout = none
  cidNum : o.cidNum = none → o.timeout = none
  dialplan : o.dialplan = none →
    o.context ≠ some "inline".toList ∧ o.context ≠ some "XML".toList

/-- The parsed command has the optional fields of `o`. -/
def FieldsAgree (o : Originate) (r : OriginateResult Originate) : Prop :=
  ∃ o', r = .ok o' ∧ o'.dialplan = o.dialplan ∧ o'.context = o.context ∧
    o'.cidName = o.cidName ∧ o'.cidNum = o.cidNum ∧ o'.timeout = o.timeout

instance (s : Str) : Decidable (AppWord s) :=
  decidable_of_iff
    (s ≠ [] ∧ s.all (fun c ↦ isWhitespace c = false ∧ c ∉ "'(),:&".toList) = true)
    (by simp [AppWord])

theorem AppWord.word {s : Str} (h : AppWord s) : Word s := by
  refine ⟨h.1, ?_⟩
  intro c hc
  obtain ⟨hspace, hsyntax⟩ := h.2 c hc
  refine ⟨hspace, ?_⟩
  rintro rfl
  exact hsyntax (by decide)

theorem AppWord.notMem {s : Str} (h : AppWord s) {c : Char} (hc : c ∈ "'(),:&".toList) :
    c ∉ s :=
  fun hmem ↦ (h.2 c hmem).2 hc

/-! ## The words of the text -/

theorem word_display (dp : DialplanType) : Word dp.display := by
  cases dp <;> decide

theorem word_displayNat (n : Nat) : Word (displayNat n) := by
  refine ⟨displayNat_ne_nil n, ?_⟩
  intro c hc
  have hdigit := isDigit_of_mem_displayNat hc
  refine ⟨isWhitespace_of_isDigit hdigit, ?_⟩
  rintro rfl
  cases hdigit

/-- The application token of a command made of words. -/
def appText (name args : Str) (dialplan : Option DialplanType) : Str :=
  (Application.mk name (some args)).toStringWithDialplan (dialplan.getD .xml)

theorem word_appText {name args : Str} (hname : AppWord name) (hargs : AppWord args)
    (dialplan : Option DialplanType) : Word (appText name args dialplan) := by
  have hmem : appText name args dialplan ≠ [] ∧ ∀ c ∈ appText name args dialplan,
      c ∈ name ∨ c ∈ args ∨ c ∈ "&():".toList := by
    unfold appText Application.toStringWithDialplan
    cases dialplan.getD .xml
    all_goals
      refine ⟨by simp, ?_⟩
      intro c hc
      simp at hc ⊢
      tauto
  have hsyntax : Word "&():".toList := by decide
  refine ⟨hmem.1, ?_⟩
  intro c hc
  rcases hmem.2 c hc with hc | hc | hc
  · exact hname.word.2 c hc
  · exact hargs.word.2 c hc
  · exact hsyntax.2 c hc

theorem forall_mem_fields {P : Str → Prop} {o : Originate} (hword : ∀ w, Word w → P w)
    (hcontext : ∀ s, o.context = some s → P s) (hname : ∀ s, o.cidName = some s → P s)
    (hnum : ∀ s, o.cidNum = some s → P s) : ∀ field ∈ o.fields, P field := by
  intro field hfield
  simp only [fields, List.mem_append, Option.mem_toList, Option.map_eq_some_iff] at hfield
  rcases hfield with (((⟨dp, -, rfl⟩ | h) | h) | h) | ⟨t, -, rfl⟩
  · exact hword _ (word_display dp)
  · exact hcontext field h
  · exact hname field h
  · exact hnum field h
  · exact hword _ (word_displayNat _)

/-! ## Parsing the text -/

section

variable {o : Originate} {uri name args : Str} (ho : o.OfWords uri name args)

include ho

theorem OfWords.word_fields : ∀ w ∈ o.fields, Word w :=
  forall_mem_fields (fun _ hw ↦ hw) ho.context_word ho.cidName_word ho.cidNum_word

theorem OfWords.display_eq :
    o.display = some ("originate".toList ++ ' ' :: [' '].intercalate
      (uri :: appText name args o.dialplan :: o.fields)) := by
  have happs : applicationsToString o.applications (o.dialplan.getD .xml) =
      .ok (appText name args o.dialplan) := by
    rw [ho.applications_eq, appText]
    cases o.dialplan.getD .xml <;> simp [applicationsToString]
  have hspace := (word_appText ho.name_word ho.args_word o.dialplan).space_notMem
  rw [display_of_ok happs, originateQuote_of_notMem hspace, ho.endpoint_eq]
  rfl

theorem OfWords.fromStr_text :
    fromStr ("originate".toList ++ ' ' :: [' '].intercalate
      (uri :: appText name args o.dialplan :: o.fields)) =
      fromArgs (.generic uri none) (appText name args o.dialplan) o.fields := by
  have happ := word_appText ho.name_word ho.args_word o.dialplan
  have hwords : ∀ w ∈ uri :: appText name args o.dialplan :: o.fields, Word w := by
    intro w hw
    rcases List.mem_cons.mp hw with rfl | hw
    · exact ho.uri_word
    · rcases List.mem_cons.mp hw with rfl | hw
      · exact happ
      · exact ho.word_fields w hw
  have hendpoint : Endpoint.fromStr uri = .ok (.generic uri none) := by
    rw [Endpoint.fromStr, if_neg ho.uri_plain]
  rw [fromStr_tokens fun w hw ↦ (hwords w hw).isToken (hwords w hw).space_notMem,
    fromTokens_cons_cons hendpoint, originateUnquote_of_word happ]

theorem OfWords.inline : (Application.mk name (some args)).Inline := by
  have hword : Word (appText name args (some .inline)) :=
    word_appText ho.name_word ho.args_word (some .inline)
  have htext : appText name args (some .inline) = name ++ ':' :: args := rfl
  have hcomma : ',' ∉ appText name args (some .inline) := by
    rw [htext, List.mem_append, List.mem_cons]
    simp [ho.name_word.notMem (c := ',') (by decide), ho.args_word.notMem (c := ',') (by decide)]
  exact ⟨hword.isToken hcomma, ho.name_word.notMem (by decide), rfl⟩

theorem OfWords.parseApplicationList_appText :
    ∃ apps, parseApplicationList (appText name args o.dialplan) o.dialplan = .ok apps := by
  have hparen : '(' ∉ name := ho.name_word.notMem (by decide)
  cases o.dialplan with
  | none => exact ⟨_, parseApplicationList_xml nofun hparen⟩
  | some dp =>
      cases dp with
      | xml => exact ⟨_, parseApplicationList_xml nofun hparen⟩
      | inline =>
          have hone : ∀ app ∈ [Application.mk name (some args)], app.Inline := by
            intro app happ
            obtain rfl := List.mem_singleton.mp happ
            exact ho.inline
          have hread := parseApplicationList_inlineText hone
          rw [inlineText, List.map_singleton, List.intercalate_singleton] at hread
          exact ⟨_, hread⟩

end

/-! ## Reading the fields by position -/

theorem positions_iff (c n m t : Option Str) :
    let rest := c.toList ++ n.toList ++ m.toList ++ t.toList
    (rest.head? = c ∧ rest.tail.head? = n ∧ rest.tail.tail.head? = m ∧
        rest.tail.tail.tail.head? = t) ↔
      (c = none → n = none ∧ m = none ∧ t = none) ∧ (n = none → m = none ∧ t = none) ∧
        (m = none → t = none) := by
  cases c <;> cases n <;> cases m <;> cases t <;> simp

theorem fourth_eq (c n m t : Option Str) :
    let rest := c.toList ++ n.toList ++ m.toList ++ t.toList
    rest.tail.tail.tail.head? = none ∨ rest.tail.tail.tail.head? = t := by
  cases c <;> cases n <;> cases m <;> cases t <;> simp

theorem parseTimeout_displayNat (t : UInt32) :
    parseTimeout (some (displayNat t.toNat)) = .ok (some t) := by
  have hparse : parseU32 (displayNat t.toNat) = some t.toNat :=
    parseUnsigned_displayNat t.toNat_lt
  rw [parseTimeout]
  simp [hparse]

theorem parseTimeout_eq_iff {arg : Option Str} {timeout : Option UInt32}
    (harg : arg = none ∨ arg = timeout.map fun t ↦ displayNat t.toNat) :
    parseTimeout arg = .ok timeout ↔ arg = timeout.map fun t ↦ displayNat t.toNat := by
  cases timeout with
  | none =>
      obtain rfl : arg = none := by simpa using harg
      simp [parseTimeout]
  | some t =>
      rcases harg with rfl | rfl
      · simp [parseTimeout]
      · simp [parseTimeout_displayNat]

theorem dialplanOf_eq_none_iff {args : List Str} :
    dialplanOf args = none ↔
      args.head? ≠ some "inline".toList ∧ args.head? ≠ some "XML".toList := by
  cases args with
  | nil => simp [dialplanOf]
  | cons arg args =>
      simp only [dialplanOf, List.head?_cons, Option.bind_some, DialplanType.fromStr]
      by_cases hinline : arg = "inline".toList
      · simp [hinline, Except.toOption]
      · by_cases hxml : arg = "XML".toList
        · simp [hxml, Except.toOption]
        · rw [if_neg hinline, if_neg hxml]
          simp only [Except.toOption, ne_eq, Option.some.injEq, hinline, hxml]
          simp

theorem of_fromArgs {o : Originate} {endpoint : Endpoint} {appStr : Str} {args : List Str}
    (h : fromArgs endpoint appStr args = .ok o) :
    o.endpoint = endpoint ∧ o.dialplan = dialplanOf args ∧
      parseApplicationList appStr o.dialplan = .ok o.applications ∧
        let rest := if (dialplanOf args).isSome then args.tail else args
        (o.context = rest.head? ∧ o.cidName = rest.tail.head? ∧
          o.cidNum = rest.tail.tail.head?) ∧
            parseTimeout rest.tail.tail.tail.head? = .ok o.timeout := by
  obtain ⟨apps, happs, h⟩ := bind_eq_ok.mp h
  obtain ⟨timeout, htimeout, h⟩ := bind_eq_ok.mp h
  obtain rfl := Except.ok.inj h
  exact ⟨rfl, rfl, happs, ⟨rfl, rfl, rfl⟩, htimeout⟩

theorem fieldsAgree_fromArgs_iff {o : Originate} {endpoint : Endpoint} {appStr : Str}
    {args : List Str} (happ : ∃ apps, parseApplicationList appStr o.dialplan = .ok apps) :
    FieldsAgree o (fromArgs endpoint appStr args) ↔
      dialplanOf args = o.dialplan ∧
        let rest := if (dialplanOf args).isSome then args.tail else args
        (rest.head? = o.context ∧ rest.tail.head? = o.cidName ∧
          rest.tail.tail.head? = o.cidNum) ∧
          parseTimeout rest.tail.tail.tail.head? = .ok o.timeout := by
  constructor
  · rintro ⟨o', h, hdialplan, hcontext, hname, hnum, htimeout⟩
    obtain ⟨-, hguess, -, ⟨hcontext', hname', hnum'⟩, htimeout'⟩ := of_fromArgs h
    refine ⟨hguess.symm.trans hdialplan, ⟨hcontext'.symm.trans hcontext, hname'.symm.trans hname,
      hnum'.symm.trans hnum⟩, ?_⟩
    rw [← htimeout]
    exact htimeout'
  · rintro ⟨hdialplan, ⟨hcontext, hname, hnum⟩, htimeout⟩
    obtain ⟨apps, happs⟩ := happ
    refine ⟨_, bind_eq_ok.mpr ⟨apps, hdialplan ▸ happs, bind_eq_ok.mpr ⟨o.timeout, htimeout, rfl⟩⟩,
      hdialplan, hcontext, hname, hnum, rfl⟩

/-- The optional fields as they are written behind the dialplan. -/
def positional (o : Originate) : List Str :=
  o.context.toList ++ o.cidName.toList ++ o.cidNum.toList ++
    (o.timeout.map fun t ↦ displayNat t.toNat).toList

theorem fields_eq (o : Originate) :
    o.fields = (o.dialplan.map DialplanType.display).toList ++ o.positional := by
  simp [fields, positional]

theorem fields_behind_dialplan (o : Originate) :
    (if o.dialplan.isSome then o.fields.tail else o.fields) = o.positional := by
  rw [fields_eq]
  cases o.dialplan <;> rfl

/-- Reading the fields behind the dialplan gives them back in order. -/
theorem reads_positional_iff (o : Originate) :
    ((o.positional.head? = o.context ∧ o.positional.tail.head? = o.cidName ∧
      o.positional.tail.tail.head? = o.cidNum) ∧
        parseTimeout o.positional.tail.tail.tail.head? = .ok o.timeout) ↔
      (o.context = none → o.cidName = none ∧ o.cidNum = none ∧ o.timeout = none) ∧
        (o.cidName = none → o.cidNum = none ∧ o.timeout = none) ∧
          (o.cidNum = none → o.timeout = none) := by
  let t := o.timeout.map fun t ↦ displayNat t.toNat
  have htimeout : t = none ↔ o.timeout = none := Option.map_eq_none_iff
  have hfourth : parseTimeout o.positional.tail.tail.tail.head? = .ok o.timeout ↔ _ :=
    parseTimeout_eq_iff (fourth_eq o.context o.cidName o.cidNum t)
  rw [hfourth, and_assoc, and_assoc, ← htimeout]
  exact positions_iff o.context o.cidName o.cidNum t

theorem dialplanOf_fields_iff (o : Originate) :
    dialplanOf o.fields = o.dialplan ↔
      (o.dialplan = none → o.positional.head? ≠ some "inline".toList ∧
        o.positional.head? ≠ some "XML".toList) := by
  rw [fields_eq]
  cases o.dialplan with
  | none =>
      rw [Option.map_none, Option.toList_none, List.nil_append, dialplanOf_eq_none_iff]
      simp
  | some dp =>
      apply iff_of_true
      · cases dp <;> rfl
      · nofun

theorem Positional.reads_positional {o : Originate} (ho : o.Positional) :
    (o.positional.head? = o.context ∧ o.positional.tail.head? = o.cidName ∧
      o.positional.tail.tail.head? = o.cidNum) ∧
        parseTimeout o.positional.tail.tail.tail.head? = .ok o.timeout :=
  (reads_positional_iff o).mpr ⟨ho.context, ho.cidName, ho.cidNum⟩

theorem Positional.dialplanOf_fields {o : Originate} (ho : o.Positional) :
    dialplanOf o.fields = o.dialplan := by
  rw [dialplanOf_fields_iff, ho.reads_positional.1.1]
  exact ho.dialplan

/-- For a command made of words, the parser finds every optional field at its
position exactly when no field stands behind an absent one and no context is
taken for a dialplan. -/
theorem fieldsAgree_iff_positional {o : Originate} {uri name args : Str}
    (ho : o.OfWords uri name args) :
    (∃ text, o.display = some text ∧ FieldsAgree o (fromStr text)) ↔ o.Positional := by
  have htext : (∃ text, o.display = some text ∧ FieldsAgree o (fromStr text)) ↔
      FieldsAgree o (fromArgs (.generic uri none) (appText name args o.dialplan) o.fields) := by
    rw [← ho.fromStr_text, ho.display_eq]
    simp
  rw [htext, fieldsAgree_fromArgs_iff ho.parseApplicationList_appText]
  constructor
  · rintro ⟨hguess, h⟩
    rw [hguess, fields_behind_dialplan] at h
    obtain ⟨hcontext, hname, hnum⟩ := (reads_positional_iff o).mp h
    refine ⟨hcontext, hname, hnum, ?_⟩
    rw [← h.1.1]
    exact (dialplanOf_fields_iff o).mp hguess
  · intro hpositional
    rw [hpositional.dialplanOf_fields, fields_behind_dialplan]
    exact ⟨rfl, hpositional.reads_positional⟩

/-- A call with at most a caller name among the optional fields. -/
def withGap (cidName : Option Str) : Originate where
  endpoint := .generic "user/1000".toList none
  applications := [⟨"park".toList, some "x".toList⟩]
  dialplan := none
  context := none
  cidName := cidName
  cidNum := none
  timeout := none

/-- The same call with the fields up to the caller name, and no field behind a gap. -/
def withoutGap : Originate :=
  { withGap (some "Bob".toList) with context := some "default".toList }

theorem ofWords_withGap {cidName : Option Str} (h : ∀ s, cidName = some s → Word s) :
    (withGap cidName).OfWords "user/1000".toList "park".toList "x".toList where
  endpoint_eq := rfl
  uri_word := by decide
  uri_plain := by decide
  applications_eq := rfl
  name_word := by decide
  args_word := by decide
  context_word := by
    intro s hs
    cases hs
  cidName_word := h
  cidNum_word := by
    intro s hs
    cases hs

theorem word_bob (s : Str) (h : some "Bob".toList = some s) : Word s := by
  obtain rfl := Option.some.inj h
  decide

theorem ofWords_withoutGap :
    withoutGap.OfWords "user/1000".toList "park".toList "x".toList :=
  { ofWords_withGap word_bob with
    context_word := by
      intro s hs
      obtain rfl := Option.some.inj hs
      decide }

theorem fieldsAgree_iff_positional_withoutGap :
    (∃ text, withoutGap.display = some text ∧ FieldsAgree withoutGap (fromStr text)) ∧
      withoutGap.Positional := by
  have hpositional : withoutGap.Positional := by
    refine ⟨?_, ?_, fun _ ↦ rfl, fun _ ↦ ?_⟩
    · intro hcontext
      cases hcontext
    · intro hname
      cases hname
    · decide
  exact ⟨(fieldsAgree_iff_positional ofWords_withoutGap).mpr hpositional, hpositional⟩

theorem not_fieldsAgree_withGap :
    ¬ ∀ (o : Originate) (uri name args : Str), o.OfWords uri name args →
      ∃ text, o.display = some text ∧ FieldsAgree o (fromStr text) := by
  intro h
  obtain ⟨text, htext, o', ho', -, hcontext, -⟩ := h _ _ _ _ (ofWords_withGap word_bob)
  have hwritten : (withGap (some "Bob".toList)).display =
      some "originate user/1000 &park(x) Bob".toList := by decide +kernel
  have hread : ((fromStr "originate user/1000 &park(x) Bob".toList).toOption.bind
      Originate.context) = some "Bob".toList := by decide +kernel
  rw [hwritten] at htext
  obtain rfl := Option.some.inj htext
  rw [ho'] at hread
  simp only [Except.toOption, Option.bind_some, hcontext] at hread
  cases hread

end Originate

end FreeswitchEsl
