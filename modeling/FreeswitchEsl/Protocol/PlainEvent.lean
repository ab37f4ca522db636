import FreeswitchEsl.CommandFrame
import FreeswitchEsl.Protocol.RoundTrip

/-!
# Events in plain format

The plain text of an event, and what the parser makes of it: the text of any event
with clean header names is read back as that event, up to its `Content-Length`.
-/

namespace FreeswitchEsl

open Text

variable (X : Crates)

/-! ## Writing -/

/-- A header line of the plain format. -/
def plainLine (p : Str × Str) : Str := p.1 ++ ": ".toList ++ X.percentEncode p.2

/-- The headers between `Event-Name` and the computed `Content-Length`, sorted by
name. -/
def sortedHeaders (order : HashOrder) (headers : HeaderMap) : List (Str × Str) :=
  ((order.entries headers).filter fun p ↦
    decide (p.1 ≠ HEADER_EVENT_NAME ∧ p.1 ≠ HEADER_CONTENT_LENGTH)).insertionSort
      fun p q ↦ p.1 ≤ q.1

/-- Serialize to plain text with percent-encoded header values. -/
def EslEvent.toPlainFormat (order : HashOrder) (e : EslEvent) : Str :=
  let result := match e.headers.get HEADER_EVENT_NAME with
    | some eventName => plainLine X (HEADER_EVENT_NAME, eventName) ++ ['\n']
    | none => []
  let result := result ++
    (sortedHeaders order e.headers).flatMap fun p ↦ plainLine X p ++ ['\n']
  match e.body with
  | some body =>
      result ++ "Content-Length: ".toList ++ displayNat (utf8Encode body).length ++ ['\n'] ++
        ['\n'] ++ body
  | none => result ++ ['\n']

/-! ## The plain forms of an event -/

namespace EslEvent

/-- The headers in plain format: `Content-Length` is recomputed from the body. -/
def plainHeaders (e : EslEvent) : HeaderMap :=
  match e.body with
  | some body => e.headers.insert HEADER_CONTENT_LENGTH (displayNat (utf8Encode body).length)
  | none => e.headers.erase HEADER_CONTENT_LENGTH

/-- The text is the event in plain format, with the header lines in any order. -/
def WritesPlain (e : EslEvent) (text : Str) : Prop :=
  ∃ entries lines, (entries.map Prod.fst).Nodup ∧ HeaderMap.ofList entries = e.plainHeaders ∧
    List.Forall₂ (WrittenHeader X) entries lines ∧
      text = lines.flatMap (fun l ↦ l ++ ['\n']) ++ '\n' :: e.body.getD []

/-- The header names that survive a line of the plain format. -/
def CleanNames (e : EslEvent) : Prop :=
  ∀ name value, e.header name = some value → ':' ∉ name ∧ '\n' ∉ name ∧ Trimmed name

theorem plainHeaders_of_ne (e : EslEvent) {name : Str} (h : name ≠ HEADER_CONTENT_LENGTH) :
    e.plainHeaders.get name = e.header name := by
  unfold plainHeaders
  cases e.body with
  | some body => exact HeaderMap.get_insert_of_ne _ _ h
  | none => exact Finmap.lookup_erase_ne h

theorem plainHeaders_contentLength (e : EslEvent) :
    e.plainHeaders.get HEADER_CONTENT_LENGTH =
      e.body.map fun body ↦ displayNat (utf8Encode body).length := by
  unfold plainHeaders
  cases e.body with
  | some body => exact HeaderMap.get_insert_self _ _ _
  | none => exact Finmap.lookup_erase _ _

theorem CleanNames.plainHeaders {e : EslEvent} (h : e.CleanNames) {name value : Str}
    (hvalue : e.plainHeaders.get name = some value) : ':' ∉ name ∧ '\n' ∉ name ∧ Trimmed name := by
  by_cases hname : name = HEADER_CONTENT_LENGTH
  · subst hname
    decide
  · rw [e.plainHeaders_of_ne hname] at hvalue
    exact h name value hvalue

end EslEvent

theorem HeaderMap.mem_iff_get_ofList {entries : List (Str × Str)}
    (h : (entries.map Prod.fst).Nodup) {p : Str × Str} :
    p ∈ entries ↔ (HeaderMap.ofList entries).get p.1 = some p.2 := by
  constructor
  · exact fun hp ↦ HeaderMap.get_ofList_of_mem h hp
  · intro hget
    by_cases hmem : p.1 ∈ entries.map Prod.fst
    · obtain ⟨q, hq, hname⟩ := List.mem_map.mp hmem
      have hvalue : (HeaderMap.ofList entries).get q.1 = some q.2 :=
        HeaderMap.get_ofList_of_mem h hq
      rw [hname, hget] at hvalue
      have hpq : q = p := Prod.ext hname (Option.some.inj hvalue).symm
      exact hpq ▸ hq
    · rw [HeaderMap.get_ofList_of_notMem hmem] at hget
      cases hget

namespace EslEvent

/-- The headers in the order in which they are written. -/
def writtenEntries (order : HashOrder) (e : EslEvent) : List (Str × Str) :=
  ((e.headers.get HEADER_EVENT_NAME).map fun eventName ↦ (HEADER_EVENT_NAME, eventName)).toList ++
    sortedHeaders order e.headers

/-- The computed `Content-Length`. -/
def lengthEntry (e : EslEvent) : List (Str × Str) :=
  (e.body.map fun body ↦ (HEADER_CONTENT_LENGTH, displayNat (utf8Encode body).length)).toList

theorem mem_sortedHeaders {order : HashOrder} {headers : HeaderMap} {name value : Str} :
    (name, value) ∈ sortedHeaders order headers ↔
      headers.get name = some value ∧ name ≠ HEADER_EVENT_NAME ∧ name ≠ HEADER_CONTENT_LENGTH := by
  rw [sortedHeaders, List.mem_insertionSort, List.mem_filter, order.mem_entries_iff]
  simp

theorem mem_entries_iff {order : HashOrder} {e : EslEvent} {name value : Str} :
    (name, value) ∈ e.writtenEntries order ++ e.lengthEntry ↔
      e.plainHeaders.get name = some value := by
  have hdistinct : HEADER_EVENT_NAME ≠ HEADER_CONTENT_LENGTH := by decide
  simp only [writtenEntries, lengthEntry, List.mem_append, Option.mem_toList, mem_sortedHeaders,
    Option.map_eq_some_iff, Prod.mk.injEq]
  by_cases hlength : name = HEADER_CONTENT_LENGTH
  · subst hlength
    rw [plainHeaders_contentLength]
    simp [hdistinct]
  · rw [e.plainHeaders_of_ne hlength]
    by_cases hevent : name = HEADER_EVENT_NAME
    · subst hevent
      simp [header, hdistinct, hdistinct.symm]
    · simp [header, hlength, hevent, Ne.symm hlength, Ne.symm hevent]

theorem nodup_entries (order : HashOrder) (e : EslEvent) :
    ((e.writtenEntries order ++ e.lengthEntry).map Prod.fst).Nodup := by
  have hsorted : ((sortedHeaders order e.headers).map Prod.fst).Nodup := by
    refine (((List.perm_insertionSort _ _).map Prod.fst).nodup_iff).mpr ?_
    exact (order.nodup_entries e.headers).sublist (List.filter_sublist.map Prod.fst)
  have hnames : ∀ name ∈ (sortedHeaders order e.headers).map Prod.fst,
      name ≠ HEADER_EVENT_NAME ∧ name ≠ HEADER_CONTENT_LENGTH := by
    intro name hname
    obtain ⟨⟨key, value⟩, hp, rfl⟩ := List.mem_map.mp hname
    exact (mem_sortedHeaders.mp hp).2
  have hdistinct : HEADER_EVENT_NAME ≠ HEADER_CONTENT_LENGTH := by decide
  have hone : ∀ (entry : Option Str) (name : Str),
      (((entry.map fun value ↦ (name, value)).toList).map Prod.fst).Nodup ∧
        ∀ key ∈ ((entry.map fun value ↦ (name, value)).toList).map Prod.fst, key = name := by
    intro entry name
    cases entry <;> simp
  have hevent := hone (e.headers.get HEADER_EVENT_NAME) HEADER_EVENT_NAME
  have hlength := hone (e.body.map fun body ↦ displayNat (utf8Encode body).length)
    HEADER_CONTENT_LENGTH
  rw [Option.map_map] at hlength
  rw [List.map_append, writtenEntries, List.map_append]
  refine List.nodup_append.mpr ⟨List.nodup_append.mpr ⟨hevent.1, hsorted, ?_⟩, hlength.1, ?_⟩
  · rintro a ha b hb rfl
    exact (hnames a hb).1 (hevent.2 a ha)
  · rintro a ha b hb rfl
    have hname := hlength.2 a hb
    rcases List.mem_append.mp ha with ha | ha
    · rw [hevent.2 a ha] at hname
      exact hdistinct hname
    · exact (hnames a ha).2 hname

theorem toPlainFormat_eq (order : HashOrder) (e : EslEvent) :
    e.toPlainFormat X order =
      ((e.writtenEntries order).map (plainLine X) ++
        e.lengthEntry.map CommandBuilder.headerLine).flatMap (fun l ↦ l ++ ['\n']) ++
          '\n' :: e.body.getD [] := by
  have hline : ∀ t : Str, CommandBuilder.headerLine (HEADER_CONTENT_LENGTH, t) =
      "Content-Length: ".toList ++ t := fun _ ↦ rfl
  unfold toPlainFormat writtenEntries lengthEntry
  generalize "Content-Length: ".toList = start at hline ⊢
  cases e.headers.get HEADER_EVENT_NAME <;> cases e.body
  all_goals simp [List.flatMap_map, hline]

/-- What the writer produces is a plain form. -/
theorem writesPlain_toPlainFormat (order : HashOrder) (e : EslEvent) :
    e.WritesPlain X (e.toPlainFormat X order) := by
  refine ⟨_, _, e.nodup_entries order, ?_, ?_, e.toPlainFormat_eq X order⟩
  · apply HeaderMap.ext_get
    intro name
    apply Option.ext
    intro value
    rw [← @mem_entries_iff order]
    exact (HeaderMap.mem_iff_get_ofList (p := (name, value)) (e.nodup_entries order)).symm
  · refine List.rel_append ?_ ?_
    · rw [List.forall₂_map_right_iff]
      exact List.forall₂_same.mpr fun p _ ↦ ⟨_, .encoded p.2, by simp [plainLine]⟩
    · rw [List.forall₂_map_right_iff]
      refine List.forall₂_same.mpr fun p hp ↦ ⟨p.2, ?_, by simp [CommandBuilder.headerLine]⟩
      obtain ⟨body, -, rfl⟩ := Option.map_eq_some_iff.mp (Option.mem_toList.mp hp)
      refine .raw ?_ (newline_notMem_displayNat _) (trimmed_displayNat _)
      exact fun h ↦ absurd (isDigit_of_mem_displayNat h) (by decide)

end EslEvent

/-! ## Reading -/

variable {X}

theorem parsePlainLines_congr {ls ls' : List Str} (h : ls.map trim = ls'.map trim)
    (event : EslEvent) : parsePlainLines X event ls = parsePlainLines X event ls' := by
  induction ls generalizing ls' event with
  | nil =>
      obtain rfl : ls' = [] := by simpa using h.symm
      rfl
  | cons l ls ih =>
      cases ls' with
      | nil => simp at h
      | cons l' ls' =>
          obtain ⟨hl, hls⟩ : trim l = trim l' ∧ ls.map trim = ls'.map trim := by simpa using h
          simp only [parsePlainLines, hl, ih hls]

theorem parsePlainLines_of_written (hX : X.PercentLaws) {entries : List (Str × Str)}
    {ls : List Str} (hclean : ∀ h ∈ entries, ':' ∉ h.1 ∧ '\n' ∉ h.1 ∧ Trimmed h.1)
    (hls : List.Forall₂ (WrittenHeader X) entries ls) (event : EslEvent) :
    parsePlainLines X event ls =
      { event with headers := entries.foldl (fun m p ↦ m.insert p.1 p.2) event.headers } := by
  induction hls generalizing event with
  | nil => rfl
  | cons hline _ ih =>
      obtain ⟨hcolon, -, htrim⟩ := hclean _ List.mem_cons_self
      obtain ⟨hne, hparse⟩ := parseHeaderLine_of_written hX hcolon htrim hline
      simp only [parsePlainLines, if_neg hne, hparse, List.foldl_cons]
      exact ih (fun h hmem ↦ hclean h (List.mem_cons_of_mem _ hmem)) _

theorem splitBlankLine_intercalate {ls : List Str} (hne : ls ≠ [])
    (h : ∀ l ∈ ls, l ≠ [] ∧ '\n' ∉ l) (rest : Str) :
    splitBlankLine (['\n'].intercalate ls ++ '\n' :: '\n' :: rest) =
      (['\n'].intercalate ls, some rest) := by
  have hsplit := splitFrame_intercalate hne h rest
  obtain ⟨pos, hpos, hp⟩ := Option.map_eq_some_iff.mp hsplit
  obtain ⟨htake, hdrop⟩ := Prod.mk.inj hp
  rw [splitBlankLine, hpos]
  exact Prod.ext htake (congrArg some hdrop)

/-- The parser reads every plain form of an event with clean names. -/
theorem parsePlainEvent_of_writesPlain (hX : X.PercentLaws) {e : EslEvent} (hnames : e.CleanNames)
    (hbody : e.body ≠ some []) {text : Str} (hw : e.WritesPlain X text) (outer : HeaderMap) :
    parsePlainEvent X ⟨.event, outer, some text⟩ =
      .ok (withEventName ⟨none, e.plainHeaders, e.body⟩) := by
  obtain ⟨entries, ls, hnodup, hentries, hls, rfl⟩ := hw
  have hclean : ∀ h ∈ entries, ':' ∉ h.1 ∧ '\n' ∉ h.1 ∧ Trimmed h.1 := by
    intro h hmem
    rw [HeaderMap.mem_iff_get_ofList hnodup, hentries] at hmem
    exact hnames.plainHeaders hmem
  have hlines := WrittenHeader.clean_of_mem hX (fun h hmem ↦ (hclean h hmem).2.1) hls
  have hparse : ∀ ls' : List Str, ls'.map trim = ls.map trim →
      parsePlainLines X EslEvent.new ls' = ⟨none, e.plainHeaders, none⟩ := by
    intro ls' htrim
    rw [parsePlainLines_congr htrim, parsePlainLines_of_written hX hclean hls, ← hentries]
    rfl
  rw [parsePlainEvent, if_neg (by simp)]
  dsimp only
  by_cases hne : ls = []
  · -- without a header line there is no body, for that would come with its length
    subst hne
    obtain rfl : entries = [] := by simpa using hls
    have hnone : e.body = none := by
      have hlength := e.plainHeaders_contentLength
      rw [← hentries] at hlength
      exact Option.map_eq_none_iff.mp hlength.symm
    have hempty : parsePlainLines X EslEvent.new [[]] = parsePlainLines X EslEvent.new [] := rfl
    have hsplit : splitBlankLine ['\n'] = (['\n'], none) := by decide
    have hline : lines ['\n'] = [[]] := by decide
    simp only [hnone, List.flatMap_nil, List.nil_append, Option.getD_none, hsplit, hline, hempty,
      hparse [] rfl]
  · have hsplit := splitBlankLine_intercalate hne hlines (e.body.getD [])
    rw [Pattern.flatMap_append_eq_intercalate hne, List.append_assoc, List.singleton_append, hsplit]
    dsimp only
    rw [hparse _ (map_trim_lines_intercalate hlines)]
    cases hb : e.body with
    | none => rfl
    | some body =>
        have hbody' : body ≠ [] := fun h ↦ hbody (h ▸ hb)
        rw [Option.getD_some, if_neg hbody']
        rfl

/-! ## The names of parsed events -/

theorem EslEvent.CleanNames.setHeader {event : EslEvent} (h : event.CleanNames) {name : Str}
    (hname : ':' ∉ name ∧ '\n' ∉ name ∧ Trimmed name) (value : Str) :
    (event.setHeader name value).CleanNames := by
  intro other text hother
  by_cases heq : other = name
  · exact heq ▸ hname
  · rw [EslEvent.header_setHeader_of_ne _ _ heq] at hother
    exact h other text hother

theorem name_of_parseHeaderLine {line : Str} {p : Str × Str} (hline : '\n' ∉ line)
    (h : parseHeaderLine X line = some p) : ':' ∉ p.1 ∧ '\n' ∉ p.1 ∧ Trimmed p.1 := by
  obtain ⟨⟨a, b⟩, hsplit, rfl⟩ := Option.map_eq_some_iff.mp h
  obtain ⟨rfl, hcolon⟩ := splitOnce_eq_some hsplit
  have hnewline : '\n' ∉ a := fun hmem ↦ hline (List.mem_append_left _ hmem)
  exact ⟨fun hmem ↦ hcolon (mem_of_mem_trim hmem), fun hmem ↦ hnewline (mem_of_mem_trim hmem),
    trimmed_trim a⟩

theorem EslEvent.CleanNames.parsePlainLines {ls : List Str} (hls : ∀ l ∈ ls, '\n' ∉ l)
    {event : EslEvent} (h : event.CleanNames) : (parsePlainLines X event ls).CleanNames := by
  induction ls generalizing event with
  | nil => exact h
  | cons l ls ih =>
      have hrest : ∀ l ∈ ls, '\n' ∉ l := fun m hm ↦ hls m (List.mem_cons_of_mem _ hm)
      have hl : '\n' ∉ trim l := fun hmem ↦ hls l List.mem_cons_self (mem_of_mem_trim hmem)
      rw [FreeswitchEsl.parsePlainLines]
      split
      · exact ih hrest h
      · split
        · rename_i key value hparse
          exact ih hrest (h.setHeader (name_of_parseHeaderLine hl hparse) value)
        · exact ih hrest h

theorem body_withEventName (event : EslEvent) : (withEventName event).body = event.body := by
  unfold withEventName
  split <;> rfl

theorem header_withEventName (event : EslEvent) (name : Str) :
    (withEventName event).header name = event.header name := by
  unfold withEventName
  split <;> rfl

theorem eventType_withEventName {event : EslEvent} (h : event.eventType = none) :
    (withEventName event).eventType =
      (event.header HEADER_EVENT_NAME).bind EslEventType.parseEventType := by
  unfold withEventName
  split
  · rename_i eventName hname
    rw [hname]
    rfl
  · rename_i hname
    rw [hname]
    exact h

theorem body_parsePlainLines (event : EslEvent) (ls : List Str) :
    (parsePlainLines X event ls).body = event.body := by
  induction ls generalizing event with
  | nil => rfl
  | cons l ls ih =>
      rw [parsePlainLines]
      split
      · exact ih event
      · split
        · rw [ih]
          rfl
        · exact ih event

/-- The text behind the first blank line of a plain event. -/
def innerBody (body : Str) : Str := (splitBlankLine body).2.getD []

/-- What the plain decoder makes of a body. -/
theorem parsePlainEvent_event (outer : HeaderMap) (body : Str) :
    ∃ e, parsePlainEvent X ⟨.event, outer, some body⟩ = .ok e ∧
      (∀ name, e.header name =
        (parsePlainLines X EslEvent.new (lines (splitBlankLine body).1)).header name) ∧
      e.body = if innerBody body = [] then none else some (innerBody body) := by
  refine ⟨_, if_neg (not_not_intro rfl), fun name ↦ ?_, ?_⟩
  · rw [header_withEventName]
    split
    · split <;> rfl
    · rfl
  · rw [body_withEventName, innerBody]
    split
    · rename_i inner hinner
      rw [hinner, Option.getD_some]
      split
      · exact body_parsePlainLines _ _
      · rfl
    · rename_i hinner
      rw [hinner]
      exact body_parsePlainLines _ _

/-- Whatever the message, a plain event that the parser returns has clean names and
no empty body. -/
theorem cleanNames_of_parsePlainEvent {m : EslMessage} {e : EslEvent}
    (h : parsePlainEvent X m = .ok e) : e.CleanNames ∧ e.body ≠ some [] := by
  obtain ⟨messageType, outer, body⟩ := m
  by_cases htype : messageType = .event
  · subst htype
    cases body with
    | none => cases h
    | some body =>
        obtain ⟨e', he', hheader, hbody⟩ := parsePlainEvent_event (X := X) outer body
        obtain rfl : e' = e := Except.ok.inj (he'.symm.trans h)
        have hnew :
            (parsePlainLines X EslEvent.new (lines (splitBlankLine body).1)).CleanNames := by
          refine EslEvent.CleanNames.parsePlainLines (fun l hl ↦ newline_notMem_of_mem_lines hl) ?_
          intro name value hvalue
          cases hvalue
        constructor
        · intro name value hvalue
          rw [hheader] at hvalue
          exact hnew name value hvalue
        · rw [hbody]
          split
          · intro hnone
            cases hnone
          · rename_i hne
            exact fun hnil ↦ hne (Option.some.inj hnil)
  · rw [parsePlainEvent, if_pos htype] at h
    cases h

/-! ## The round trip -/

/-- `e'` is the event `e` with its `Content-Length` and its type computed. -/
structure EslEvent.Restores (e e' : EslEvent) : Prop where
  body : e'.body = e.body
  header : ∀ name, name ≠ HEADER_CONTENT_LENGTH → e'.header name = e.header name
  contentLength : e'.header HEADER_CONTENT_LENGTH =
    e.body.map fun body ↦ displayNat (utf8Encode body).length
  eventType : e'.eventType = (e.header HEADER_EVENT_NAME).bind EslEventType.parseEventType

theorem EslEvent.restores_withEventName (e : EslEvent) :
    e.Restores (withEventName ⟨none, e.plainHeaders, e.body⟩) where
  body := body_withEventName _
  header := by
    intro name hname
    rw [header_withEventName]
    exact e.plainHeaders_of_ne hname
  contentLength := by
    rw [header_withEventName]
    exact e.plainHeaders_contentLength
  eventType := by
    rw [eventType_withEventName rfl]
    exact congrArg (Option.bind · _) (e.plainHeaders_of_ne (by decide))

/-- Every event with clean header names, among them every event that the plain
parser returns, is restored from its plain format. -/
theorem plainEvent_roundTrip (hX : X.PercentLaws) (order : HashOrder) (outer : HeaderMap) :
    (∀ e : EslEvent, e.CleanNames → e.body ≠ some [] →
      ∃ e', parseEvent X ⟨.event, outer, some (e.toPlainFormat X order)⟩ .plain = .ok e' ∧
        e.Restores e') ∧
      ∀ m e, parseEvent X m .plain = .ok e → e.CleanNames ∧ e.body ≠ some [] := by
  refine ⟨?_, fun m e h ↦ cleanNames_of_parsePlainEvent h⟩
  intro e hnames hbody
  exact ⟨_, parsePlainEvent_of_writesPlain hX hnames hbody (e.writesPlain_toPlainFormat X order)
    outer, e.restores_withEventName⟩

/-- An event with a colon in a value and a blank line in its body. -/
def EslEvent.blankLineBody : EslEvent :=
  (((EslEvent.new.setHeader HEADER_EVENT_NAME "TALK".toList).setHeader "A".toList
    "b: c".toList).setBody "x\n\ny".toList)

theorem plainEvent_roundTrip_blankLineBody :
    let text := "Event-Name: TALK\nA: b%3A%20c\nContent-Length: 4\n\nx\n\ny".toList
    ∃ e', parseEvent .percentOnly ⟨.event, HeaderMap.empty, some text⟩ .plain = .ok e' ∧
      EslEvent.blankLineBody.Restores e' := by
  intro text
  have htext : EslEvent.blankLineBody.toPlainFormat .percentOnly .byName = text := by
    decide +kernel
  have hnames : EslEvent.blankLineBody.CleanNames := by
    intro name value hvalue
    have hmem : (name, value) ∈ HashOrder.byName.entries EslEvent.blankLineBody.headers :=
      HashOrder.byName.mem_entries_iff.mpr hvalue
    have hcheck : ∀ p ∈ HashOrder.byName.entries EslEvent.blankLineBody.headers,
        ':' ∉ p.1 ∧ '\n' ∉ p.1 ∧ Trimmed p.1 := by
      decide +kernel
    exact hcheck _ hmem
  rw [← htext]
  exact (plainEvent_roundTrip Crates.percentOnly_percentLaws .byName HeaderMap.empty).1 _ hnames
    (by decide)

end FreeswitchEsl
