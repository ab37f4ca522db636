import FreeswitchEsl.Protocol.PlainEvent

/-!
# The three event formats

The same event in plain, JSON and XML format, and how far the three decoders
agree on it.
-/

namespace FreeswitchEsl

open Text

variable (X : Crates)

/-- Both decoders accept, and give the same type, body and headers, the headers
with the given names aside. -/
def EventsAgree (aside : List Str) (r r' : EslResult EslEvent) : Prop :=
  ∃ a b, r = .ok a ∧ r' = .ok b ∧ a.eventType = b.eventType ∧ a.body = b.body ∧
    ∀ name, name ∉ aside → a.header name = b.header name

/-- Two events with the same body and the same headers up to some that do not
determine the type. -/
theorem eventsAgree_withEventName {aside : List Str} (haside : HEADER_EVENT_NAME ∉ aside)
    {headers headers' : HeaderMap} (h : ∀ name, name ∉ aside → headers.get name = headers'.get name)
    (body : Option Str) :
    EventsAgree aside (.ok (withEventName ⟨none, headers, body⟩))
      (.ok (withEventName ⟨none, headers', body⟩)) := by
  refine ⟨_, _, rfl, rfl, ?_, ?_, ?_⟩
  · rw [eventType_withEventName rfl, eventType_withEventName rfl]
    exact congrArg (Option.bind · _) (h _ haside)
  · rw [body_withEventName, body_withEventName]
  · intro name hname
    rw [header_withEventName, header_withEventName]
    exact h name hname

namespace EslEvent

/-! ## JSON -/

def JSON_BODY : Str := "_body".toList

/-- The members of the JSON object: a string for every header, and one for the
body. -/
def jsonMembers (e : EslEvent) : HeaderMap :=
  match e.body with
  | some body => e.headers.insert JSON_BODY body
  | none => e.headers

/-- The text is the event in JSON format: a flat object of strings, with the members
in any order. -/
def WritesJson (e : EslEvent) (text : Str) : Prop :=
  ∃ entries, (entries.map Prod.fst).Nodup ∧ HeaderMap.ofList entries = e.jsonMembers ∧
    X.jsonFromStr text = .ok (.object (entries.map fun p ↦ (p.1, .string p.2)))

end EslEvent

variable {X}

theorem parseJsonEvent_of_writesJson {e : EslEvent} {text : Str} (hw : e.WritesJson X text)
    (messageType : MessageType) (outer : HeaderMap) :
    parseJsonEvent X ⟨messageType, outer, some text⟩ =
      .ok (withEventName ⟨none, e.jsonMembers, none⟩) := by
  obtain ⟨entries, -, hentries, hjson⟩ := hw
  rw [parseJsonEvent]
  simp only [hjson]
  -- a member that is a string is set as it is
  refine congrArg (fun event ↦ Except.ok (withEventName event)) ?_
  rw [List.foldl_map, ← hentries]
  refine (EslEvent.foldl_setHeader id (fun _ _ ↦ rfl) entries EslEvent.new).trans ?_
  rw [List.map_id]
  rfl

section Json

variable {e : EslEvent} {json plain : Str}

theorem body_eq_none_of_jsonAgrees (hX : X.PercentLaws) (hnames : e.CleanNames)
    (hbody : e.body ≠ some []) (hjson : e.WritesJson X json) (hplain : e.WritesPlain X plain)
    {aside : List Str} {outer outer' : HeaderMap}
    (h : EventsAgree aside (parseEvent X ⟨.event, outer, some json⟩ .json)
      (parseEvent X ⟨.event, outer', some plain⟩ .plain)) : e.body = none := by
  rw [parseEvent, parseEvent, parseJsonEvent_of_writesJson hjson,
    parsePlainEvent_of_writesPlain hX hnames hbody hplain] at h
  obtain ⟨a, b, ha, hb, -, hsame, -⟩ := h
  obtain rfl := Except.ok.inj ha
  obtain rfl := Except.ok.inj hb
  rw [body_withEventName, body_withEventName] at hsame
  exact hsame.symm

/-- JSON and plain decoding agree on an event exactly when it has no body: the JSON
decoder leaves the body among the headers. -/
theorem jsonAgrees_iff_body_eq_none (hX : X.PercentLaws) (hnames : e.CleanNames)
    (hbody : e.body ≠ some []) (hjson : e.WritesJson X json) (hplain : e.WritesPlain X plain)
    (outer outer' : HeaderMap) :
    EventsAgree [HEADER_CONTENT_LENGTH, EslEvent.JSON_BODY]
        (parseEvent X ⟨.event, outer, some json⟩ .json)
        (parseEvent X ⟨.event, outer', some plain⟩ .plain) ↔ e.body = none := by
  constructor
  · exact body_eq_none_of_jsonAgrees hX hnames hbody hjson hplain
  · intro hnone
    rw [parseEvent, parseEvent, parseJsonEvent_of_writesJson hjson,
      parsePlainEvent_of_writesPlain hX hnames hbody hplain, hnone]
    refine eventsAgree_withEventName (by decide) ?_ none
    intro name hname
    rw [e.plainHeaders_of_ne fun h ↦ hname (by simp [h]), EslEvent.jsonMembers, hnone]
    rfl

end Json

/-- The published percent coding, and decoders that know one document each. -/
def Crates.knowing (json : Str) (value : JsonValue) (xml : Str) (events : List XmlEvent) : Crates :=
  { Crates.percentOnly with
    jsonFromStr := fun s ↦ if s = json then .ok value else .error []
    xmlRead := fun s ↦ if s = xml then ⟨events, none⟩ else ⟨[], some []⟩ }

theorem Crates.knowing_percentLaws (json : Str) (value : JsonValue) (xml : Str)
    (events : List XmlEvent) : (Crates.knowing json value xml events).PercentLaws :=
  ⟨Crates.percentOnly_percentLaws.decode_encode, Crates.percentOnly_percentLaws.mem_encode,
    Crates.percentOnly_percentLaws.decode_plain⟩

theorem Crates.jsonFromStr_knowing (json : Str) (value : JsonValue) (xml : Str)
    (events : List XmlEvent) :
    (Crates.knowing json value xml events).jsonFromStr json = .ok value := if_pos rfl

/-- An event `TALK`, with or without a body. -/
def EslEvent.talk (body : Option Str) : EslEvent :=
  ⟨none, HeaderMap.empty.insert HEADER_EVENT_NAME "TALK".toList, body⟩

theorem EslEvent.cleanNames_talk (body : Option Str) : (EslEvent.talk body).CleanNames := by
  intro name value hvalue
  by_cases hname : name = HEADER_EVENT_NAME
  · subst hname
    decide
  · change HeaderMap.get (HeaderMap.empty.insert HEADER_EVENT_NAME "TALK".toList) name = _ at hvalue
    rw [HeaderMap.get_insert_of_ne _ _ hname] at hvalue
    cases hvalue

theorem jsonAgrees_iff_body_eq_none_talk :
    let json := "\x7b\"Event-Name\":\"TALK\"\x7d".toList
    let X := Crates.knowing json (.object [(HEADER_EVENT_NAME, .string "TALK".toList)]) [] []
    EventsAgree [HEADER_CONTENT_LENGTH, EslEvent.JSON_BODY]
        (parseEvent X ⟨.event, HeaderMap.empty, some json⟩ .json)
        (parseEvent X ⟨.event, HeaderMap.empty,
          some ((EslEvent.talk none).toPlainFormat X .byName)⟩ .plain) ↔
      (EslEvent.talk none).body = none := by
  intro json X
  have hjson : (EslEvent.talk none).WritesJson X json :=
    ⟨[(HEADER_EVENT_NAME, "TALK".toList)], by decide, rfl, Crates.jsonFromStr_knowing _ _ _ _⟩
  exact jsonAgrees_iff_body_eq_none (Crates.knowing_percentLaws _ _ _ _)
    (EslEvent.cleanNames_talk none) nofun hjson (EslEvent.writesPlain_toPlainFormat X .byName _)
    HeaderMap.empty HeaderMap.empty

theorem not_jsonAgrees_talkWithBody :
    ¬ ∀ (X : Crates) (e : EslEvent) (json plain : Str) (outer outer' : HeaderMap),
      X.PercentLaws → e.CleanNames → e.body ≠ some [] → e.header EslEvent.JSON_BODY = none →
      e.WritesJson X json → e.WritesPlain X plain →
        EventsAgree [HEADER_CONTENT_LENGTH, EslEvent.JSON_BODY]
          (parseEvent X ⟨.event, outer, some json⟩ .json)
          (parseEvent X ⟨.event, outer', some plain⟩ .plain) := by
  intro h
  let json := "\x7b\"Event-Name\":\"TALK\",\"_body\":\"hi\"\x7d".toList
  let X := Crates.knowing json (.object [(HEADER_EVENT_NAME, .string "TALK".toList),
    (EslEvent.JSON_BODY, .string "hi".toList)]) [] []
  let e := EslEvent.talk (some "hi".toList)
  have hX : X.PercentLaws := Crates.knowing_percentLaws _ _ _ _
  have hjson : e.WritesJson X json := by
    refine ⟨[(HEADER_EVENT_NAME, "TALK".toList), (EslEvent.JSON_BODY, "hi".toList)], by decide, rfl,
      Crates.jsonFromStr_knowing _ _ _ _⟩
  have hplain := e.writesPlain_toPlainFormat X .byName
  have hagree := h X e json _ HeaderMap.empty HeaderMap.empty hX (EslEvent.cleanNames_talk _)
    (by decide) (by decide +kernel) hjson hplain
  cases body_eq_none_of_jsonAgrees hX (EslEvent.cleanNames_talk _) (by decide) hjson hplain hagree

/-! ## XML -/

/-- What the reader reports for the whitespace between two elements. -/
def XmlGap (events : List XmlEvent) : Prop :=
  ∀ event ∈ events, ∃ s : Str, event = .text (.ok s) ∧ s ≠ [] ∧ ∀ c ∈ s, isWhitespace c = true

/-- An element with a text: an empty text is not reported. -/
def xmlElement (name text : Str) : List XmlEvent :=
  .start name :: (if text = [] then [] else [.text (.ok text)]) ++ [.endTag name]

/-- An element for every entry, with whitespace around the elements. -/
inductive XmlElements : List (Str × Str) → List XmlEvent → Prop
  | nil {gap} : XmlGap gap → XmlElements [] gap
  | cons {gap p entries events} : XmlGap gap → XmlElements entries events →
      XmlElements (p :: entries) (gap ++ xmlElement p.1 p.2 ++ events)

/-- The element of a body; an event without one has an empty element or none. -/
inductive XmlBody : Option Str → List XmlEvent → Prop
  | some {body gap} : XmlGap gap → XmlBody (some body) (gap ++ xmlElement "body".toList body)
  | empty {gap} : XmlGap gap → XmlBody none (gap ++ xmlElement "body".toList [])
  | none : XmlBody none []

/-- The text is the event in XML format, with the headers in any order. -/
def EslEvent.WritesXml (X : Crates) (e : EslEvent) (text : Str) : Prop :=
  ∃ entries headers body gap gap' gap'', (entries.map Prod.fst).Nodup ∧
    HeaderMap.ofList entries = e.headers ∧ XmlElements entries headers ∧ XmlBody e.body body ∧
      XmlGap gap ∧ XmlGap gap' ∧ XmlGap gap'' ∧
      X.xmlRead text = ⟨.start "event".toList :: gap ++ .start "headers".toList :: headers ++
        .endTag "headers".toList :: body ++ gap' ++ .endTag "event".toList :: gap'', none⟩

/-- No header has the name of a structural element, and none but `Content-Length`
has an empty value. -/
def EslEvent.XmlRegular (e : EslEvent) : Prop :=
  ∀ name value, e.header name = some value →
    name ≠ "headers".toList ∧ name ≠ "body".toList ∧ (value = [] → name = HEADER_CONTENT_LENGTH)

/-! ## Runs of the XML decoder -/

/-- The decoder goes from one state to the other on these events. -/
def XmlRuns (s : XmlState) (events : List XmlEvent) (t : XmlState) : Prop :=
  events.foldlM parseXmlStep s = .ok t

/-- The state between two elements. -/
def XmlState.between (event : EslEvent) (inHeaders : Bool) : XmlState :=
  ⟨event, inHeaders, false, none⟩

namespace XmlRuns

variable {s t u : XmlState} {ev : XmlEvent} {events events' : List XmlEvent}

theorem nil (s : XmlState) : XmlRuns s [] s := rfl

theorem cons (h : parseXmlStep s ev = .ok t) (h' : XmlRuns t events u) :
    XmlRuns s (ev :: events) u := by
  rw [XmlRuns, List.foldlM_cons, h]
  exact h'

theorem append (h : XmlRuns s events t) (h' : XmlRuns t events' u) :
    XmlRuns s (events ++ events') u := by
  rw [XmlRuns, List.foldlM_append, h]
  exact h'

theorem gap {gap : List XmlEvent} (h : XmlGap gap) (event : EslEvent) (inHeaders : Bool) :
    XmlRuns (.between event inHeaders) gap (.between event inHeaders) := by
  induction gap with
  | nil => exact nil _
  | cons ev gap ih =>
      obtain ⟨s, rfl, -, -⟩ := h ev List.mem_cons_self
      exact cons rfl (ih fun d hd ↦ h d (List.mem_cons_of_mem _ hd))

theorem element {name : Str} (hheaders : name ≠ "headers".toList) (hbody : name ≠ "body".toList)
    (text : Str) (event : EslEvent) :
    XmlRuns (.between event true) (xmlElement name text)
      (.between (if text = [] then event else event.setHeader name text) true) := by
  have hstart : parseXmlStep (.between event true) (.start name) =
      .ok ⟨event, true, false, some name⟩ := by
    rw [parseXmlStep, if_neg hheaders, if_neg hbody]
    rfl
  have hend : ∀ event : EslEvent, parseXmlStep ⟨event, true, false, some name⟩ (.endTag name) =
      .ok (.between event true) := by
    intro event
    rw [parseXmlStep, if_neg hheaders, if_neg hbody]
    rfl
  unfold xmlElement
  split
  · exact cons hstart (cons (hend event) (nil _))
  · exact cons hstart (cons rfl (cons (hend _) (nil _)))

theorem body {text : Option Str} {events : List XmlEvent} (h : XmlBody text events)
    (hne : text ≠ some []) {event : EslEvent} (hnone : event.body = none) :
    XmlRuns (.between event false) events (.between { event with body := text } false) := by
  cases h with
  | @some text g hgap =>
      have htext : text ≠ [] := fun h ↦ hne (congrArg _ h)
      refine (gap hgap event false).append ?_
      rw [xmlElement, if_neg htext]
      exact cons rfl (cons rfl (cons rfl (nil _)))
  | empty hgap =>
      rw [← hnone]
      exact (gap hgap event false).append (cons rfl (cons rfl (nil _)))
  | none =>
      rw [← hnone]
      exact nil _

/-- The elements of the headers set those that have a text. -/
theorem elements {entries : List (Str × Str)} {events : List XmlEvent}
    (h : XmlElements entries events)
    (hnames : ∀ p ∈ entries, p.1 ≠ "headers".toList ∧ p.1 ≠ "body".toList) (event : EslEvent) :
    XmlRuns (.between event true) events (.between { event with
      headers := (entries.filter fun p ↦ decide (p.2 ≠ [])).foldl
        (fun m p ↦ m.insert p.1 p.2) event.headers } true) := by
  induction h generalizing event with
  | nil hgap => exact gap hgap event true
  | @cons g p entries events hgap _ ih =>
      obtain ⟨hheaders, hbody⟩ := hnames p List.mem_cons_self
      have hrest := ih fun q hq ↦ hnames q (List.mem_cons_of_mem _ hq)
      refine ((gap hgap event true).append (element hheaders hbody p.2 event)).append ?_
      by_cases htext : p.2 = []
      · rw [if_pos htext, List.filter_cons_of_neg (by simp [htext])]
        exact hrest event
      · rw [if_neg htext, List.filter_cons_of_pos (by simp [htext])]
        exact hrest (event.setHeader p.1 p.2)

end XmlRuns

/-! ## What the XML decoder cannot give -/

/-- A text is not reported when it is empty. -/
def XmlEvent.Reported (ev : XmlEvent) : Prop := ev ≠ .text (.ok [])

/-- A header never has a structural name or an empty value. -/
structure XmlState.Sound (s : XmlState) : Prop where
  header : ∀ name value, s.event.header name = some value →
    name ≠ "headers".toList ∧ name ≠ "body".toList ∧ value ≠ []
  tag : ∀ name, s.currentTag = some name → name ≠ "headers".toList ∧ name ≠ "body".toList

theorem XmlState.Sound.step {s t : XmlState} {ev : XmlEvent} (h : s.Sound) (hev : ev.Reported)
    (hstep : parseXmlStep s ev = .ok t) : t.Sound := by
  cases ev with
  | start name =>
      obtain rfl := Except.ok.inj hstep
      split
      · exact ⟨h.header, h.tag⟩
      · split
        · exact ⟨h.header, h.tag⟩
        · rename_i hheaders hbody
          split
          · refine ⟨h.header, ?_⟩
            rintro tag htag
            obtain rfl := Option.some.inj htag
            exact ⟨hheaders, hbody⟩
          · exact h
  | endTag name =>
      obtain rfl := Except.ok.inj hstep
      split
      · exact ⟨h.header, h.tag⟩
      · split
        · exact ⟨h.header, h.tag⟩
        · split
          · exact ⟨h.header, nofun⟩
          · exact h
  | other =>
      obtain rfl := Except.ok.inj hstep
      exact h
  | text unescaped =>
      cases unescaped with
      | error e => cases hstep
      | ok text =>
          have htext : text ≠ [] := fun heq ↦ hev (congrArg (XmlEvent.text ∘ .ok) heq)
          obtain rfl := Except.ok.inj hstep
          split
          · exact ⟨h.header, h.tag⟩
          · split
            · rename_i tag htag
              refine ⟨?_, h.tag⟩
              intro name value hvalue
              by_cases hname : name = tag
              · subst hname
                rw [EslEvent.header_setHeader_self] at hvalue
                obtain ⟨hheaders, hbody⟩ := h.tag name htag
                exact ⟨hheaders, hbody, Option.some.inj hvalue ▸ htext⟩
              · rw [EslEvent.header_setHeader_of_ne _ _ hname] at hvalue
                exact h.header name value hvalue
            · exact h

theorem XmlRuns.sound {s t : XmlState} {events : List XmlEvent} (h : XmlRuns s events t)
    (hs : s.Sound) (hevents : ∀ ev ∈ events, ev.Reported) : t.Sound := by
  induction events generalizing s with
  | nil => exact Except.ok.inj h ▸ hs
  | cons ev events ih =>
      rw [XmlRuns, List.foldlM_cons] at h
      obtain ⟨u, hu, h⟩ := bind_eq_ok.mp h
      exact ih h (hs.step (hevents ev List.mem_cons_self) hu)
        fun d hd ↦ hevents d (List.mem_cons_of_mem _ hd)

theorem reported_xmlGap {gap : List XmlEvent} (h : XmlGap gap) : ∀ ev ∈ gap, ev.Reported := by
  intro ev hev
  obtain ⟨s, rfl, hs, -⟩ := h ev hev
  rintro heq
  obtain rfl := Except.ok.inj (XmlEvent.text.inj heq)
  exact hs rfl

theorem reported_xmlElement (name text : Str) : ∀ ev ∈ xmlElement name text, ev.Reported := by
  unfold xmlElement XmlEvent.Reported
  split
  · simp
  · rename_i htext
    simp [htext]

theorem reported_xmlElements {entries : List (Str × Str)} {events : List XmlEvent}
    (h : XmlElements entries events) : ∀ ev ∈ events, ev.Reported := by
  induction h with
  | nil hgap => exact reported_xmlGap hgap
  | cons hgap _ ih =>
      intro ev hev
      rcases List.mem_append.mp hev with hev | hev
      · rcases List.mem_append.mp hev with hev | hev
        · exact reported_xmlGap hgap ev hev
        · exact reported_xmlElement _ _ ev hev
      · exact ih ev hev

theorem reported_xmlBody {body : Option Str} {events : List XmlEvent} (h : XmlBody body events) :
    ∀ ev ∈ events, ev.Reported := by
  cases h with
  | some hgap | empty hgap =>
      intro ev hev
      rcases List.mem_append.mp hev with hev | hev
      · exact reported_xmlGap hgap ev hev
      · exact reported_xmlElement _ _ ev hev
  | none => simp

/-! ## XML and plain -/

section Xml

variable {e : EslEvent} {xml plain : Str}

/-- What the decoder makes of an event in XML format never has a header with a
structural name or an empty value. -/
theorem header_of_parseXmlEvent (hxml : e.WritesXml X xml) {messageType : MessageType}
    {outer : HeaderMap} {a : EslEvent}
    (h : parseXmlEvent X ⟨messageType, outer, some xml⟩ = .ok a) {name value : Str}
    (hvalue : a.header name = some value) :
    name ≠ "headers".toList ∧ name ≠ "body".toList ∧ value ≠ [] := by
  obtain ⟨entries, headers, body, gap, gap', gap'', -, -, hheaders, hbody, hgap, hgap', hgap'',
    hread⟩ := hxml
  obtain ⟨s, hs, h⟩ := bind_eq_ok.mp h
  rw [hread] at hs h
  obtain rfl := Except.ok.inj h
  have hreported : ∀ ev ∈ .start "event".toList :: gap ++ .start "headers".toList :: headers ++
      .endTag "headers".toList :: body ++ gap' ++ .endTag "event".toList :: gap'',
      ev.Reported := by
    have hstart : ∀ name, (XmlEvent.start name).Reported := fun _ ↦ nofun
    have hend : ∀ name, (XmlEvent.endTag name).Reported := fun _ ↦ nofun
    simp only [List.forall_mem_append, List.forall_mem_cons]
    exact ⟨⟨⟨⟨⟨hstart _, reported_xmlGap hgap⟩, hstart _, reported_xmlElements hheaders⟩, hend _,
      reported_xmlBody hbody⟩, reported_xmlGap hgap'⟩, hend _, reported_xmlGap hgap''⟩
  have hnew : (XmlState.mk EslEvent.new false false none).Sound := ⟨nofun, nofun⟩
  rw [header_withEventName] at hvalue
  exact (XmlRuns.sound hs hnew hreported).header name value hvalue

/-- A regular event is decoded up to an empty `Content-Length`. -/
theorem parseXmlEvent_of_writesXml (hxml : e.WritesXml X xml) (hbody : e.body ≠ some [])
    (hregular : e.XmlRegular) (messageType : MessageType) (outer : HeaderMap) :
    ∃ headers : HeaderMap, (∀ name, name ≠ HEADER_CONTENT_LENGTH →
        headers.get name = e.header name) ∧
      parseXmlEvent X ⟨messageType, outer, some xml⟩ =
        .ok (withEventName ⟨none, headers, e.body⟩) := by
  obtain ⟨entries, headers, body, gap, gap', gap'', hnodup, hentries, hheaders, htext, hgap, hgap',
    hgap'', hread⟩ := hxml
  have hmem : ∀ p ∈ entries, e.header p.1 = some p.2 := by
    intro p hp
    rw [HeaderMap.mem_iff_get_ofList hnodup, hentries] at hp
    exact hp
  have hnames : ∀ p ∈ entries, p.1 ≠ "headers".toList ∧ p.1 ≠ "body".toList := by
    intro p hp
    obtain ⟨h₁, h₂, -⟩ := hregular p.1 p.2 (hmem p hp)
    exact ⟨h₁, h₂⟩
  let kept := entries.filter fun p ↦ decide (p.2 ≠ [])
  have hkept : (kept.map Prod.fst).Nodup := hnodup.sublist (List.filter_sublist.map Prod.fst)
  refine ⟨HeaderMap.ofList kept, ?_, ?_⟩
  · intro name hname
    apply Option.ext
    intro value
    change (HeaderMap.ofList kept).get (name, value).1 = some (name, value).2 ↔ _
    rw [← HeaderMap.mem_iff_get_ofList hkept, List.mem_filter, HeaderMap.mem_iff_get_ofList hnodup,
      hentries]
    constructor
    · exact fun h ↦ h.1
    · intro h
      refine ⟨h, decide_eq_true fun hvalue ↦ ?_⟩
      exact hname ((hregular name value h).2.2 hvalue)
  · have hruns : XmlRuns ⟨EslEvent.new, false, false, none⟩
        (.start "event".toList :: gap ++ .start "headers".toList :: headers ++
          .endTag "headers".toList :: body ++ gap' ++ .endTag "event".toList :: gap'')
        (.between ⟨none, HeaderMap.ofList kept, e.body⟩ false) := by
      refine XmlRuns.append (XmlRuns.append (XmlRuns.append (XmlRuns.append
        (XmlRuns.cons rfl (XmlRuns.gap hgap EslEvent.new false))
        (XmlRuns.cons rfl (XmlRuns.elements hheaders hnames EslEvent.new)))
        (XmlRuns.cons rfl (XmlRuns.body htext hbody rfl)))
        (XmlRuns.gap hgap' _ false)) (XmlRuns.cons rfl (XmlRuns.gap hgap'' _ false))
    rw [parseXmlEvent]
    dsimp only
    rw [hread]
    refine bind_eq_ok.mpr ⟨_, hruns, rfl⟩

/-- XML and plain decoding agree on an event exactly when no header is lost between
the elements: none has a structural name, and none but `Content-Length` is empty. -/
theorem xmlAgrees_iff_xmlRegular (hX : X.PercentLaws) (hnames : e.CleanNames)
    (hbody : e.body ≠ some []) (hxml : e.WritesXml X xml) (hplain : e.WritesPlain X plain)
    (outer outer' : HeaderMap) :
    EventsAgree [HEADER_CONTENT_LENGTH]
        (parseEvent X ⟨.event, outer, some xml⟩ .xml)
        (parseEvent X ⟨.event, outer', some plain⟩ .plain) ↔ e.XmlRegular := by
  rw [parseEvent, parseEvent, parsePlainEvent_of_writesPlain hX hnames hbody hplain]
  constructor
  · rintro ⟨a, b, ha, hb, -, -, hsame⟩ name value hvalue
    obtain rfl := Except.ok.inj hb
    by_cases hname : name = HEADER_CONTENT_LENGTH
    · subst hname
      exact ⟨by decide, by decide, fun _ ↦ rfl⟩
    · have hheader : a.header name = some value := by
        rw [hsame name (by simpa using hname), header_withEventName, ← hvalue]
        exact e.plainHeaders_of_ne hname
      obtain ⟨hheaders, hbody, hne⟩ := header_of_parseXmlEvent hxml ha hheader
      exact ⟨hheaders, hbody, fun h ↦ absurd h hne⟩
  · intro hregular
    obtain ⟨headers, hheaders, hparse⟩ :=
      parseXmlEvent_of_writesXml hxml hbody hregular .event outer
    rw [hparse]
    refine eventsAgree_withEventName (by decide) ?_ e.body
    intro name hname
    have hne : name ≠ HEADER_CONTENT_LENGTH := by simpa using hname
    rw [hheaders name hne, e.plainHeaders_of_ne hne]

end Xml

theorem Crates.xmlRead_knowing (json : Str) (value : JsonValue) (xml : Str)
    (events : List XmlEvent) :
    (Crates.knowing json value xml events).xmlRead xml = ⟨events, none⟩ := if_pos rfl

theorem xmlAgrees_iff_xmlRegular_talk :
    let xml := "<event><headers><Event-Name>TALK</Event-Name></headers></event>".toList
    let X := Crates.knowing [] .null xml (.start "event".toList :: .start "headers".toList ::
      xmlElement HEADER_EVENT_NAME "TALK".toList ++
        [.endTag "headers".toList, .endTag "event".toList])
    EventsAgree [HEADER_CONTENT_LENGTH]
        (parseEvent X ⟨.event, HeaderMap.empty, some xml⟩ .xml)
        (parseEvent X ⟨.event, HeaderMap.empty,
          some ((EslEvent.talk none).toPlainFormat X .byName)⟩ .plain) ↔
      (EslEvent.talk none).XmlRegular := by
  intro xml X
  have hgap : XmlGap [] := by simp [XmlGap]
  have hxml : (EslEvent.talk none).WritesXml X xml :=
    ⟨[(HEADER_EVENT_NAME, "TALK".toList)], _, [], [], [], [], by decide, rfl,
      .cons hgap (.nil hgap), .none, hgap, hgap, hgap, Crates.xmlRead_knowing _ _ _ _⟩
  exact xmlAgrees_iff_xmlRegular (Crates.knowing_percentLaws _ _ _ _)
    (EslEvent.cleanNames_talk none) nofun hxml (EslEvent.writesPlain_toPlainFormat X .byName _)
    HeaderMap.empty HeaderMap.empty

theorem not_xmlAgrees_emptyValue :
    ¬ ∀ (X : Crates) (e : EslEvent) (xml plain : Str) (outer outer' : HeaderMap),
      X.PercentLaws → e.CleanNames → e.body ≠ some [] → e.WritesXml X xml →
      e.WritesPlain X plain →
        EventsAgree [HEADER_CONTENT_LENGTH]
          (parseEvent X ⟨.event, outer, some xml⟩ .xml)
          (parseEvent X ⟨.event, outer', some plain⟩ .plain) := by
  intro h
  let xml := "<event><headers><Event-Name>TALK</Event-Name><A></A></headers></event>".toList
  let X := Crates.knowing [] .null xml (.start "event".toList :: .start "headers".toList ::
    (xmlElement HEADER_EVENT_NAME "TALK".toList ++ xmlElement "A".toList []) ++
      [.endTag "headers".toList, .endTag "event".toList])
  let e := (EslEvent.talk none).setHeader "A".toList []
  have hgap : XmlGap [] := by simp [XmlGap]
  have hX : X.PercentLaws := Crates.knowing_percentLaws _ _ _ _
  have hnames : e.CleanNames := (EslEvent.cleanNames_talk none).setHeader (by decide) []
  have hxml : e.WritesXml X xml :=
    ⟨[(HEADER_EVENT_NAME, "TALK".toList), ("A".toList, [])], _, [], [], [], [], by decide, rfl,
      .cons hgap (.cons hgap (.nil hgap)), .none, hgap, hgap, hgap, Crates.xmlRead_knowing _ _ _ _⟩
  have hplain := e.writesPlain_toPlainFormat X .byName
  obtain ⟨a, b, ha, hb, -, -, hsame⟩ :=
    h X e xml _ HeaderMap.empty HeaderMap.empty hX hnames nofun hxml hplain
  rw [parseEvent] at ha
  rw [parseEvent, parsePlainEvent_of_writesPlain hX hnames nofun hplain] at hb
  obtain rfl := Except.ok.inj hb
  have hvalue : a.header "A".toList = some [] := by
    rw [hsame _ (by decide), header_withEventName]
    exact (e.plainHeaders_of_ne (by decide)).trans (EslEvent.header_setHeader_self _ _ _)
  exact (header_of_parseXmlEvent hxml ha hvalue).2.2 rfl

end FreeswitchEsl
