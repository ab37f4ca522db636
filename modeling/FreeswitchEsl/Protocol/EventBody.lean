import FreeswitchEsl.Protocol.Formats

/-!
# What the event decoders accept

The plain and the JSON decoder beside the strict one for header blocks: the plain one
skips lines that the strict one rejects, takes the text behind the first blank line
as the body whatever length the headers announce, and the JSON one takes a value that
is no object for an event without headers.
-/

namespace FreeswitchEsl

open Text

variable (X : Crates)

/-! ## The inner body -/

/-- The `Content-Length` header of the header section of a plain event. -/
def innerLength (body : Str) : Option Str :=
  (parsePlainLines X EslEvent.new (lines (splitBlankLine body).1)).header HEADER_CONTENT_LENGTH

/-- The body of the event is what the inner `Content-Length` announces, there is an
error if the text is too short for it, and without the header there is no body. -/
def InnerBodyRespected (body : Str) (result : EslResult EslEvent) : Prop :=
  match innerLength X body with
  | none => ∃ e, result = .ok e ∧ e.body = none
  | some text => ∀ n, Denotes (trim text) n →
      (∀ first, first <+: innerBody body → (utf8Encode first).length = n →
        ∃ e, result = .ok e ∧ e.body = if n = 0 then none else some first) ∧
      ((utf8Encode (innerBody body)).length < n → ∃ error, result = .error error)

/-- The text behind the blank line has the announced length, or a greater one and the
announced end is inside a character; without the header there is no text. -/
def AnnouncedExactly (body : Str) : Prop :=
  match innerLength X body with
  | none => innerBody body = []
  | some text => ∀ n, Denotes (trim text) n →
      n = (utf8Encode (innerBody body)).length ∨
        n < (utf8Encode (innerBody body)).length ∧
          ∀ first, first <+: innerBody body → (utf8Encode first).length ≠ n

variable {X}

theorem eq_of_prefix_of_length_utf8Encode {s t : Str} (h : s <+: t)
    (hlength : (utf8Encode s).length = (utf8Encode t).length) : s = t := by
  obtain ⟨rest, rfl⟩ := h
  rw [utf8Encode_append, List.length_append] at hlength
  have hrest : rest = [] := by
    by_contra hne
    have hpos := List.length_pos_of_ne_nil (utf8Encode_ne_nil hne)
    omega
  rw [hrest, List.append_nil]

/-- For one announced length. -/
theorem bodyOfLength_iff {text : Str} {n : Nat} {e : EslEvent}
    (hbody : e.body = if text = [] then none else some text) :
    ((∀ first, first <+: text → (utf8Encode first).length = n →
        e.body = if n = 0 then none else some first) ∧ n ≤ (utf8Encode text).length) ↔
      n = (utf8Encode text).length ∨ n < (utf8Encode text).length ∧
        ∀ first, first <+: text → (utf8Encode first).length ≠ n := by
  constructor
  · rintro ⟨hcut, hle⟩
    rcases hle.eq_or_lt with heq | hlt
    · exact Or.inl heq
    · refine Or.inr ⟨hlt, fun first hfirst hlength ↦ ?_⟩
      have hne : text ≠ [] := by
        rintro rfl
        exact Nat.not_lt_zero n hlt
      have hsome := hcut first hfirst hlength
      rw [hbody, if_neg hne] at hsome
      split at hsome
      · cases hsome
      · obtain rfl := Option.some.inj hsome
        omega
  · rintro (rfl | ⟨hlt, hinside⟩)
    · refine ⟨fun first hfirst hlength ↦ ?_, le_rfl⟩
      obtain rfl := eq_of_prefix_of_length_utf8Encode hfirst hlength
      rw [hbody]
      by_cases hnil : first = []
      · rw [if_pos hnil, if_pos (by rw [hnil]; rfl)]
      · have hpos : (utf8Encode first).length ≠ 0 :=
          fun hzero ↦ utf8Encode_ne_nil hnil (List.length_eq_zero_iff.mp hzero)
        rw [if_neg hnil, if_neg hpos]
    · exact ⟨fun first hfirst hlength ↦ absurd hlength (hinside first hfirst), hlt.le⟩

/-- The plain decoder respects the inner length exactly when it need not look at it. -/
theorem innerBodyRespected_iff (X : Crates) (outer : HeaderMap) (body : Str) :
    InnerBodyRespected X body (parseEvent X ⟨.event, outer, some body⟩ .plain) ↔
      AnnouncedExactly X body := by
  obtain ⟨e, he, -, hbody⟩ := parsePlainEvent_event (X := X) outer body
  unfold InnerBodyRespected AnnouncedExactly
  rw [parseEvent, he]
  split
  · constructor
    · rintro ⟨e', he', hnone⟩
      obtain rfl := Except.ok.inj he'
      by_contra hne
      rw [hbody, if_neg hne] at hnone
      cases hnone
    · intro hnil
      exact ⟨e, rfl, by rw [hbody, if_pos hnil]⟩
  · refine forall₂_congr fun n _ ↦ ?_
    rw [← bodyOfLength_iff hbody]
    constructor
    · rintro ⟨hcut, hshort⟩
      refine ⟨fun first hfirst hlength ↦ ?_, ?_⟩
      · obtain ⟨e', he', hsame⟩ := hcut first hfirst hlength
        obtain rfl := Except.ok.inj he'
        exact hsame
      · by_contra hlt
        obtain ⟨error, herror⟩ := hshort (Nat.lt_of_not_le hlt)
        cases herror
    · rintro ⟨hcut, hle⟩
      refine ⟨fun first hfirst hlength ↦ ⟨e, rfl, hcut first hfirst hlength⟩, fun hlt ↦ ?_⟩
      omega

theorem not_innerBodyRespected_longer :
    ¬ ∀ (X : Crates) (outer : HeaderMap) (body : Str),
      InnerBodyRespected X body (parseEvent X ⟨.event, outer, some body⟩ .plain) := by
  intro h
  have hrespected := h .percentOnly HeaderMap.empty "Content-Length: 2\n\nabc".toList
  have hlength : innerLength .percentOnly "Content-Length: 2\n\nabc".toList = some ['2'] := by
    decide +kernel
  obtain ⟨e, he, -, hbody⟩ := parsePlainEvent_event (X := .percentOnly) HeaderMap.empty
    "Content-Length: 2\n\nabc".toList
  have hinnerBody : innerBody "Content-Length: 2\n\nabc".toList = "abc".toList := by
    decide +kernel
  rw [InnerBodyRespected, hlength, parseEvent, he] at hrespected
  have hcut := (hrespected 2 (by decide +kernel)).1 "ab".toList
  rw [hinnerBody] at hcut hbody
  obtain ⟨e', he', hsome⟩ := hcut (by decide) (by decide +kernel)
  obtain rfl := Except.ok.inj he'
  rw [hbody] at hsome
  revert hsome
  decide

/-! ## Lines without a colon -/

/-- Every line that is not blank has a colon. -/
def LinesHaveColon (ls : List Str) : Prop := ∀ line ∈ ls, trim line ≠ [] → ':' ∈ line

theorem LinesHaveColon.of_cons {line : Str} {ls : List Str} (h : LinesHaveColon (line :: ls)) :
    LinesHaveColon ls :=
  fun l hl ↦ h l (List.mem_cons_of_mem _ hl)

theorem parseHeaderLine_eq_none_iff {line : Str} :
    parseHeaderLine X (trim line) = none ↔ ':' ∉ line := by
  rw [parseHeaderLine, Option.map_eq_none_iff, splitOnce_eq_none_iff]
  exact not_congr ⟨mem_of_mem_trim, mem_trim (by decide)⟩

/-- Where the strict loop accepts, both loops read the same headers. -/
theorem parseHeaderLines_of_linesHaveColon {ls : List Str} (h : LinesHaveColon ls)
    (event : EslEvent) :
    parseHeaderLines X event.headers ls = .ok (parsePlainLines X event ls).headers := by
  induction ls generalizing event with
  | nil => rfl
  | cons line ls ih =>
      rw [parseHeaderLines, parsePlainLines]
      split
      · exact ih h.of_cons event
      · rename_i hblank
        split
        · rename_i key value _
          exact ih h.of_cons (event.setHeader key value)
        · rename_i hnone
          exact absurd (h line List.mem_cons_self hblank) (parseHeaderLine_eq_none_iff.mp hnone)

/-- The strict loop reports the first line that the lenient one skips. -/
theorem invalidHeader_of_not_linesHaveColon {ls : List Str} (h : ¬ LinesHaveColon ls)
    (headers : HeaderMap) :
    ∃ before line after, ls = before ++ line :: after ∧ LinesHaveColon before ∧
      trim line ≠ [] ∧ ':' ∉ line ∧
        parseHeaderLines X headers ls = .error (.invalidHeader (trim line)) := by
  induction ls generalizing headers with
  | nil => exact absurd (fun _ hl ↦ absurd hl List.not_mem_nil) h
  | cons line ls ih =>
      by_cases hline : trim line ≠ [] → ':' ∈ line
      · have hls : ¬ LinesHaveColon ls := fun hls ↦ h (List.forall_mem_cons.mpr ⟨hline, hls⟩)
        rw [parseHeaderLines]
        split
        · obtain ⟨before, l, after, rfl, hbefore, hl⟩ := ih hls headers
          exact ⟨line :: before, l, after, rfl, List.forall_mem_cons.mpr ⟨hline, hbefore⟩, hl⟩
        · rename_i hblank
          split
          · rename_i key value _
            obtain ⟨before, l, after, rfl, hbefore, hl⟩ := ih hls (headers.insert key value)
            exact ⟨line :: before, l, after, rfl, List.forall_mem_cons.mpr ⟨hline, hbefore⟩, hl⟩
          · rename_i hnone
            exact absurd (hline hblank) (parseHeaderLine_eq_none_iff.mp hnone)
      · obtain ⟨hblank, hcolon⟩ := Classical.not_imp.mp hline
        refine ⟨[], line, ls, rfl, fun _ hl ↦ absurd hl List.not_mem_nil, hblank, hcolon, ?_⟩
        rw [parseHeaderLines, if_neg hblank, parseHeaderLine_eq_none_iff.mpr hcolon]

/-- Whatever the text, the decoder of the outer headers accepts it when every line that is not
blank has a colon, with the headers that the plain decoder of events reads.  Otherwise it
names the first line that this decoder skips. -/
theorem parseHeaders_exact (X : Crates) (text : Str) :
    (LinesHaveColon (lines text) ∧
        parseHeaders X text = .ok (parsePlainLines X EslEvent.new (lines text)).headers) ∨
      ∃ before line after, lines text = before ++ line :: after ∧ LinesHaveColon before ∧
        trim line ≠ [] ∧ ':' ∉ line ∧
          parseHeaders X text = .error (.invalidHeader (trim line)) := by
  by_cases h : LinesHaveColon (lines text)
  · exact Or.inl ⟨h, parseHeaderLines_of_linesHaveColon h EslEvent.new⟩
  · exact Or.inr (invalidHeader_of_not_linesHaveColon h HeaderMap.empty)

theorem isSome_header_setHeader {event : EslEvent} {name : Str}
    (h : (event.header name).isSome = true) (key value : Str) :
    ((event.setHeader key value).header name).isSome = true := by
  by_cases heq : name = key
  · rw [heq, EslEvent.header_setHeader_self]
    rfl
  · rwa [EslEvent.header_setHeader_of_ne _ _ heq]

theorem isSome_header_parsePlainLines {event : EslEvent} {name : Str}
    (h : (event.header name).isSome = true) (ls : List Str) :
    ((parsePlainLines X event ls).header name).isSome = true := by
  induction ls generalizing event with
  | nil => exact h
  | cons line ls ih =>
      rw [parsePlainLines]
      split
      · exact ih h
      · split
        · exact ih (isSome_header_setHeader h _ _)
        · exact ih h

/-- A line with a colon becomes a header. -/
theorem isSome_header_of_mem {ls : List Str} {line name rest : Str} (hmem : line ∈ ls)
    (hline : splitOnce ':' (trim line) = some (name, rest)) (event : EslEvent) :
    ((parsePlainLines X event ls).header (trim name)).isSome = true := by
  induction ls generalizing event with
  | nil => cases hmem
  | cons l ls ih =>
      rw [parsePlainLines]
      rcases List.mem_cons.mp hmem with rfl | hmem
      · have hne : trim line ≠ [] := by
          intro hnil
          rw [hnil] at hline
          cases hline
        rw [if_neg hne, parseHeaderLine, hline]
        apply isSome_header_parsePlainLines
        rw [EslEvent.header_setHeader_self]
        rfl
      · split
        · exact ih hmem event
        · split
          · exact ih hmem _
          · exact ih hmem event

/-! ## Members of an object -/

/-- The value of the header that a member becomes. -/
def JsonValue.headerText (X : Crates) : JsonValue → Str
  | .string s => s
  | value => X.jsonToString value

def JsonValue.isObject : JsonValue → Bool
  | .object _ => true
  | _ => false

/-- The event that the members of an object make. -/
def EslEvent.ofMembers (X : Crates) (members : List (Str × JsonValue)) : EslEvent :=
  ⟨none, HeaderMap.ofList (members.map fun p ↦ (p.1, p.2.headerText X)), none⟩

theorem HeaderMap.exists_of_mem_ofList {l : List (Str × Str)} {name : Str}
    (h : name ∈ l.map Prod.fst) :
    ∃ value, (HeaderMap.ofList l).get name = some value ∧ (name, value) ∈ l := by
  induction l with
  | nil => cases h
  | cons p l ih =>
      rw [HeaderMap.get_ofList_cons]
      by_cases hlater : name ∈ l.map Prod.fst
      · obtain ⟨value, hvalue, hmem⟩ := ih hlater
        exact ⟨value, by rw [hvalue, Option.some_or], List.mem_cons_of_mem _ hmem⟩
      · have hp : name = p.1 := (List.mem_cons.mp h).resolve_right hlater
        refine ⟨p.2, ?_, by rw [hp]; exact List.mem_cons_self⟩
        rw [HeaderMap.get_ofList_eq_none_iff.mpr hlater, Option.none_or, if_pos hp]

theorem parseJsonEvent_object {m : EslMessage} {body : Str} {members : List (Str × JsonValue)}
    (hbody : m.body = some body) (hjson : X.jsonFromStr body = .ok (.object members)) :
    parseJsonEvent X m = .ok (withEventName (EslEvent.ofMembers X members)) := by
  rw [parseJsonEvent, hbody]
  simp only [hjson]
  exact congrArg (fun event ↦ Except.ok (withEventName event))
    (EslEvent.foldl_setHeader (fun p ↦ (p.1, p.2.headerText X)) (fun _ _ ↦ rfl) members
      EslEvent.new)

theorem exists_header_ofMembers {members : List (Str × JsonValue)} {name : Str}
    (h : name ∈ members.map Prod.fst) :
    ∃ value, (name, value) ∈ members ∧
      (EslEvent.ofMembers X members).header name = some (value.headerText X) := by
  have hname : name ∈ (members.map fun p ↦ (p.1, p.2.headerText X)).map Prod.fst := by
    rw [List.map_map]
    exact h
  obtain ⟨text, htext, hmem⟩ := HeaderMap.exists_of_mem_ofList hname
  obtain ⟨⟨key, value⟩, hp, heq⟩ := List.mem_map.mp hmem
  obtain ⟨rfl, rfl⟩ := Prod.mk.inj heq
  exact ⟨value, hp, htext⟩

/-! ## Well-formed bodies -/

/-- Every line of the header section that is not blank has a colon and has become a
header. -/
def PlainWellFormed (body : Option Str) (e : EslEvent) : Prop :=
  ∃ text, body = some text ∧ ∀ line ∈ lines (splitBlankLine text).1, trim line ≠ [] →
    ∃ name rest, splitOnce ':' (trim line) = some (name, rest) ∧
      (e.header (trim name)).isSome = true

/-- The body is an object, and every member has become a header. -/
def JsonWellFormed (X : Crates) (body : Option Str) (e : EslEvent) : Prop :=
  ∃ text members, body = some text ∧ X.jsonFromStr text = .ok (.object members) ∧
    ∀ name ∈ members.map Prod.fst, ∃ value, (name, value) ∈ members ∧
      e.header name = some (value.headerText X)

theorem plainWellFormed_iff (outer : HeaderMap) (body : Option Str) :
    (∀ e, parsePlainEvent X ⟨.event, outer, body⟩ = .ok e → PlainWellFormed body e) ↔
      ∀ text, body = some text → LinesHaveColon (lines (splitBlankLine text).1) := by
  constructor
  · rintro h text rfl line hline hblank
    obtain ⟨e, he, -⟩ := parsePlainEvent_event (X := X) outer text
    obtain ⟨text', htext, hlines⟩ := h e he
    obtain rfl := Option.some.inj htext
    obtain ⟨name, rest, hsplit, -⟩ := hlines line hline hblank
    apply mem_of_mem_trim
    rw [(splitOnce_eq_some hsplit).1]
    exact List.mem_append_right _ List.mem_cons_self
  · intro h e he
    cases body with
    | none => cases he
    | some text =>
        obtain ⟨e', he', hheader, -⟩ := parsePlainEvent_event (X := X) outer text
        obtain rfl : e' = e := Except.ok.inj (he'.symm.trans he)
        refine ⟨text, rfl, fun line hline hblank ↦ ?_⟩
        have hcolon : splitOnce ':' (trim line) ≠ none := by
          intro hnone
          exact splitOnce_eq_none_iff.mp hnone
            (mem_trim (by decide) (h text rfl line hline hblank))
        obtain ⟨⟨name, rest⟩, hsplit⟩ := Option.ne_none_iff_exists'.mp hcolon
        refine ⟨name, rest, hsplit, ?_⟩
        rw [hheader]
        exact isSome_header_of_mem hline hsplit EslEvent.new

theorem jsonWellFormed_iff (outer : HeaderMap) (body : Option Str) :
    (∀ e, parseJsonEvent X ⟨.event, outer, body⟩ = .ok e → JsonWellFormed X body e) ↔
      ∀ text value, body = some text → X.jsonFromStr text = .ok value → value.isObject = true := by
  constructor
  · rintro h text value rfl hjson
    by_contra hobject
    have hempty : parseJsonEvent X ⟨.event, outer, some text⟩ = .ok EslEvent.new := by
      rw [parseJsonEvent]
      simp only [hjson]
      cases value with
      | object members => exact absurd rfl hobject
      | null | bool _ | number _ | string _ | array _ => rfl
    obtain ⟨text', members, htext, hmembers, -⟩ := h _ hempty
    obtain rfl := Option.some.inj htext
    obtain rfl := Except.ok.inj (hjson.symm.trans hmembers)
    exact hobject rfl
  · intro h e he
    cases body with
    | none => cases he
    | some text =>
        cases hjson : X.jsonFromStr text with
        | error error =>
            rw [parseJsonEvent] at he
            simp only [hjson] at he
            cases he
        | ok value =>
            have hobject := h text value rfl hjson
            cases value with
            | object members =>
                rw [parseJsonEvent_object rfl hjson] at he
                obtain rfl := Except.ok.inj he
                refine ⟨text, members, rfl, hjson, fun name hname ↦ ?_⟩
                rw [header_withEventName]
                exact exists_header_ofMembers hname
            | null | bool _ | number _ | string _ | array _ => cases hobject

/-- An accepted event body is well formed exactly when the plain one has a colon in
every line, and when the JSON one is an object unless it is no JSON at all. -/
theorem accepted_wellFormed_iff (X : Crates) (outer : HeaderMap) (body : Option Str) :
    ((∀ e, parseEvent X ⟨.event, outer, body⟩ .plain = .ok e → PlainWellFormed body e) ↔
        ∀ text, body = some text → LinesHaveColon (lines (splitBlankLine text).1)) ∧
      ((∀ e, parseEvent X ⟨.event, outer, body⟩ .json = .ok e → JsonWellFormed X body e) ↔
        ∀ text value, body = some text → X.jsonFromStr text = .ok value →
          value.isObject = true) :=
  ⟨plainWellFormed_iff outer body, jsonWellFormed_iff outer body⟩

theorem not_accepted_wellFormed_garbage :
    (¬ ∀ (X : Crates) (outer : HeaderMap) (body : Option Str) (e : EslEvent),
        parseEvent X ⟨.event, outer, body⟩ .plain = .ok e → PlainWellFormed body e) ∧
      ¬ ∀ (X : Crates) (outer : HeaderMap) (body : Option Str) (e : EslEvent),
        parseEvent X ⟨.event, outer, body⟩ .json = .ok e → JsonWellFormed X body e := by
  constructor
  · intro h
    have hcolon := (plainWellFormed_iff HeaderMap.empty _).mp
      (h .percentOnly HeaderMap.empty (some "garbage".toList)) _ rfl "garbage".toList
    exact absurd (hcolon (by decide) (by decide)) (by decide)
  · intro h
    let X := Crates.knowing "[]".toList (.array []) [] []
    have hwell : ∀ e, parseJsonEvent X ⟨.event, HeaderMap.empty, some "[]".toList⟩ = .ok e →
        JsonWellFormed X (some "[]".toList) e :=
      h X HeaderMap.empty (some "[]".toList)
    have hobject := (jsonWellFormed_iff HeaderMap.empty _).mp hwell _ _ rfl
      (Crates.jsonFromStr_knowing _ _ _ _)
    cases hobject

end FreeswitchEsl
