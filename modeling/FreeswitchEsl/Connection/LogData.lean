import FreeswitchEsl.Connection.System
import FreeswitchEsl.Protocol.RoundTrip

/-!
# Log messages

The reader takes a `log/data` message for an event in plain format.  What it
delivers is read from the lines of the text alone, so neither the log headers nor
the text can be told from it.
-/

namespace FreeswitchEsl

open Text

variable (X : Crates)

/-! ## Text that leaves no trace -/

/-- A character that can stand in front of a text without being seen. -/
def unseen (text : Str) : Char := if text.head? = some '\n' then 'x' else '\n'

theorem splitBlankLine_unseen (text : Str) :
    splitBlankLine (unseen text :: text) =
      (unseen text :: (splitBlankLine text).1, (splitBlankLine text).2) := by
  have hfirst : ¬ Pattern.OccursAt ['\n', '\n'] (unseen text :: text) 0 := by
    unfold unseen Pattern.OccursAt
    split
    · simp
    · rename_i hhead
      cases text with
      | nil => simp
      | cons c text => simpa using hhead
  rw [splitBlankLine, Pattern.find_cons hfirst, splitBlankLine]
  cases Pattern.find ['\n', '\n'] text with
  | none => rfl
  | some pos => rfl

theorem parsePlainLines_unseen (event : EslEvent) {text part : Str}
    (hpart : part = [] ∨ part.head? = text.head?) :
    parsePlainLines X event (lines (unseen text :: part)) =
      parsePlainLines X event (lines part) := by
  have hblank : ∀ s, lines ('\n' :: s) = [] :: lines s := fun _ ↦ rfl
  have hskip : ∀ ls, parsePlainLines X event ([] :: ls) = parsePlainLines X event ls :=
    fun _ ↦ rfl
  have hword : ∀ ls, parsePlainLines X event (['x'] :: ls) = parsePlainLines X event ls :=
    fun _ ↦ rfl
  unfold unseen
  split
  · rename_i hhead
    -- the `x` makes a line of its own, which has no colon
    rcases hpart with rfl | hpart
    · exact hword []
    · rw [hhead] at hpart
      obtain ⟨rest, rfl⟩ := List.head?_eq_some_iff.mp hpart
      have hline : lines ('x' :: '\n' :: rest) = ['x'] :: lines rest := rfl
      rw [hline, hblank, hword, hskip]
  · rw [hblank, hskip]

theorem parsePlainEvent_unseen (outer outer' : HeaderMap) (text : Str) :
    parsePlainEvent X ⟨.event, outer, some (unseen text :: text)⟩ =
      parsePlainEvent X ⟨.event, outer', some text⟩ := by
  have hpart : (splitBlankLine text).1 = [] ∨ (splitBlankLine text).1.head? = text.head? := by
    unfold splitBlankLine
    split
    · rename_i pos _
      cases pos with
      | zero => exact Or.inl rfl
      | succ pos => exact Or.inr (by cases text <;> rfl)
    · exact Or.inr rfl
  have hne : ¬ MessageType.event ≠ .event := not_not.mpr rfl
  simp only [parsePlainEvent, if_neg hne, splitBlankLine_unseen, parsePlainLines_unseen X _ hpart]

/-! ## Log messages -/

def HEADER_LOG_LEVEL : Str := "Log-Level".toList

namespace WireMessage

/-- A `log/data` message with a text. -/
def IsLog (m : WireMessage) : Prop := m.contentType = "log/data".toList ∧ m.body ≠ none

def logLevel (m : WireMessage) : Option Str := (HeaderMap.ofList m.headers).get HEADER_LOG_LEVEL

/-- The same message with another level. -/
def withLogLevel (m : WireMessage) (level : Str) : WireMessage where
  headers := (HEADER_LOG_LEVEL, level) :: m.headers.filter fun h ↦ h.1 ≠ HEADER_LOG_LEVEL
  body := m.body
  contentType := m.contentType
  nodup := by
    refine List.nodup_cons.mpr ⟨?_, m.nodup.sublist (List.filter_sublist.map Prod.fst)⟩
    simp
  name_clean := by
    have hname : ':' ∉ HEADER_LOG_LEVEL ∧ '\n' ∉ HEADER_LOG_LEVEL ∧ Trimmed HEADER_LOG_LEVEL := by
      decide
    refine List.forall_mem_cons.mpr ⟨hname, fun h hmem ↦ ?_⟩
    exact m.name_clean h (List.mem_of_mem_filter hmem)
  contentLength_notMem := by
    have hne : HEADER_CONTENT_LENGTH ≠ HEADER_LOG_LEVEL := by decide
    rw [List.map_cons, List.mem_cons, not_or]
    refine ⟨hne, fun hmem ↦ m.contentLength_notMem ?_⟩
    exact (List.filter_sublist.map Prod.fst).subset hmem
  contentType_mem := by
    have hne : HEADER_CONTENT_TYPE ≠ HEADER_LOG_LEVEL := by decide
    exact List.mem_cons_of_mem _ (List.mem_filter.mpr ⟨m.contentType_mem, by simpa using hne⟩)
  body_fits := m.body_fits

theorem logLevel_withLogLevel (m : WireMessage) (level : Str) :
    (m.withLogLevel level).logLevel = some level :=
  HeaderMap.get_ofList_of_mem (m.withLogLevel level).nodup List.mem_cons_self

/-- The same message with another text. -/
def withText (m : WireMessage) (text : Str)
    (h : text ≠ [] ∧ (utf8Encode text).length ≤ MAX_MESSAGE_SIZE) : WireMessage :=
  { m with
    body := some text
    body_fits := fun _ hb ↦ Option.some.inj hb ▸ h }

theorem eventResult_of_isLog {m : WireMessage} (hlog : m.IsLog) {text : Str}
    (hbody : m.body = some text) (outer : HeaderMap) :
    m.decoded.eventResult X = parsePlainEvent X ⟨.event, outer, some text⟩ := by
  have hget : m.decoded.headers.get HEADER_CONTENT_TYPE = some m.contentType :=
    HeaderMap.get_ofList_of_mem m.nodup_entries m.contentType_mem_entries
  have hformat : m.decoded.eventFormat = .plain := by
    rw [EslMessage.eventFormat, hget, hlog.1]
    decide
  have htype : m.decoded.messageType = .event := by
    have hevent : MessageType.fromContentType "log/data".toList = .event := by decide
    rw [decoded, hlog.1]
    exact hevent
  have htext : m.decoded.body = some text := hbody
  rw [EslMessage.eventResult, hformat, parseEvent]
  simp only [parsePlainEvent, htype, htext]

end WireMessage

/-- Of every log message an event is delivered, but other messages give the same
one: with another level, and, if the text has room for one byte more, with another
text. -/
theorem log_lost {m : WireMessage} (hlog : m.IsLog) :
    ∃ e, m.decoded.eventResult X = .ok e ∧
      (∃ m' : WireMessage, m'.IsLog ∧ m'.decoded.eventResult X = .ok e ∧ m'.body = m.body ∧
        m'.logLevel ≠ m.logLevel) ∧
      ((utf8Encode (m.body.getD [])).length < MAX_MESSAGE_SIZE →
        ∃ m' : WireMessage, m'.IsLog ∧ m'.decoded.eventResult X = .ok e ∧
          m'.headers = m.headers ∧ m'.body ≠ m.body) := by
  obtain ⟨text, hbody⟩ := Option.ne_none_iff_exists'.mp hlog.2
  have hresult := WireMessage.eventResult_of_isLog X hlog hbody HeaderMap.empty
  obtain ⟨e, he⟩ : ∃ e, parsePlainEvent X ⟨.event, HeaderMap.empty, some text⟩ = .ok e := ⟨_, rfl⟩
  refine ⟨e, hresult.trans he, ?_, ?_⟩
  · obtain ⟨level, hlevel⟩ : ∃ level, some level ≠ m.logLevel := by
      cases m.logLevel with
      | none => exact ⟨[], Option.some_ne_none _⟩
      | some old => exact ⟨'x' :: old, fun h ↦ List.cons_ne_self _ _ (Option.some.inj h)⟩
    refine ⟨m.withLogLevel level, hlog, ?_, rfl, ?_⟩
    · exact (WireMessage.eventResult_of_isLog X (m := m.withLogLevel level) hlog hbody _).trans he
    · rwa [WireMessage.logLevel_withLogLevel]
  · intro hroom
    rw [hbody, Option.getD_some] at hroom
    have hfits : (utf8Encode (unseen text :: text)).length ≤ MAX_MESSAGE_SIZE := by
      have hone : (String.utf8EncodeChar (unseen text)).length = 1 := by
        unfold unseen
        split <;> rfl
      rw [utf8Encode_cons, List.length_append, hone]
      omega
    refine ⟨m.withText (unseen text :: text) ⟨List.cons_ne_nil _ _, hfits⟩,
      ⟨hlog.1, Option.some_ne_none _⟩, ?_, rfl, ?_⟩
    · have hevent := WireMessage.eventResult_of_isLog X
        (m := m.withText (unseen text :: text) ⟨List.cons_ne_nil _ _, hfits⟩)
        ⟨hlog.1, Option.some_ne_none _⟩ rfl HeaderMap.empty
      exact hevent.trans ((parsePlainEvent_unseen X _ _ text).trans he)
    · rw [hbody]
      exact fun h ↦ List.cons_ne_self _ _ (Option.some.inj h)

/-- A log message with its level and a text. -/
def WireMessage.log (level text : Str)
    (h : text ≠ [] ∧ (utf8Encode text).length ≤ MAX_MESSAGE_SIZE) : WireMessage where
  headers := [(HEADER_CONTENT_TYPE, "log/data".toList), (HEADER_LOG_LEVEL, level)]
  body := some text
  contentType := "log/data".toList
  nodup := by
    have hne : HEADER_CONTENT_TYPE ≠ HEADER_LOG_LEVEL := by decide
    simp [hne]
  name_clean := by
    have hnames : (':' ∉ HEADER_CONTENT_TYPE ∧ '\n' ∉ HEADER_CONTENT_TYPE ∧
        Trimmed HEADER_CONTENT_TYPE) ∧
        ':' ∉ HEADER_LOG_LEVEL ∧ '\n' ∉ HEADER_LOG_LEVEL ∧ Trimmed HEADER_LOG_LEVEL := by
      decide
    simpa using hnames
  contentLength_notMem := by
    have hne : HEADER_CONTENT_LENGTH ≠ HEADER_CONTENT_TYPE ∧
        HEADER_CONTENT_LENGTH ≠ HEADER_LOG_LEVEL := by
      decide
    simpa using hne
  contentType_mem := List.mem_cons_self
  body_fits := fun _ hb ↦ Option.some.inj hb ▸ h

theorem log_lost_answered :
    ∃ e, (WireMessage.log "7".toList "Channel answered\n".toList (by decide)).decoded.eventResult
        .percentOnly = .ok e ∧
      ∃ m' : WireMessage, m'.IsLog ∧ m'.decoded.eventResult .percentOnly = .ok e ∧
        m'.logLevel ≠ some "7".toList := by
  obtain ⟨e, he, ⟨m', hlog, he', -, hlevel⟩, -⟩ := log_lost .percentOnly
    (m := WireMessage.log "7".toList "Channel answered\n".toList (by decide))
    ⟨rfl, Option.some_ne_none _⟩
  exact ⟨e, he, m', hlog, he', hlevel⟩

/-- Two lines of different levels give the same empty event. -/
theorem not_log_recovered :
    ¬ ∀ (X : Crates) (m m' : WireMessage), m.IsLog → m'.IsLog →
      ∀ e, m.decoded.eventResult X = .ok e → m'.decoded.eventResult X = .ok e →
        m.body = m'.body ∧ HeaderMap.ofList m.headers = HeaderMap.ofList m'.headers := by
  intro h
  have hlog : ∀ (level text : Str) (hfits : _),
      (WireMessage.log level text hfits).IsLog := fun _ _ _ ↦ ⟨rfl, Option.some_ne_none _⟩
  have hsame := h .percentOnly (.log "7".toList "answered".toList (by decide))
    (.log "3".toList "refused".toList (by decide)) (hlog _ _ _) (hlog _ _ _) EslEvent.new
    (WireMessage.eventResult_of_isLog _ (hlog _ _ _) rfl HeaderMap.empty)
    (WireMessage.eventResult_of_isLog _ (hlog _ _ _) rfl HeaderMap.empty)
  exact absurd hsame.1 (by decide)

end FreeswitchEsl
