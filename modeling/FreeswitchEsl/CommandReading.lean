import FreeswitchEsl.CommandLines
import FreeswitchEsl.Lib.Incremental
import FreeswitchEsl.Protocol.HeaderBlock

/-!
# Reading commands back

A peer cuts the bytes of a client into requests and takes every request for a
command.  As long as each field can be told from the next one, the commands that it
reads are those that were written.
-/

namespace FreeswitchEsl

open Text Incremental

/-! ## Requests -/

/-- A command before its line is taken apart. -/
structure Request where
  line : Str
  headers : HeaderMap
  body : Option Str

/-- The name and the value of a header line; one blank stands before the value. -/
def readField (line : Str) : Str × Str :=
  match splitOnce ':' line with
  | some (name, value) => (name, (stripPrefix [' '] value).getD value)
  | none => (line, [])

/-- A decimal number of any size. -/
def parseDecimal (s : Str) : Option Nat := parseUnsigned (10 ^ s.length) s

theorem parseDecimal_displayNat (n : Nat) : parseDecimal (displayNat n) = some n := by
  apply parseUnsigned_displayNat
  have hpos : 0 < (displayNat n).length := Nat.length_toDigits_pos
  exact (Nat.length_toDigits_le_iff (by omega) hpos).mp le_rfl

def readFields (ls : List Str) : HeaderMap :=
  HeaderMap.ofList ((ls.filter fun l ↦ (contentLengthText l).isNone).map readField)

/-- Take the bytes of the body that the header lines announce. -/
def takeBody (line : Str) (fields : List Str) (b rest : Bytes) : Step Unit UInt8 Request Unit :=
  match (fields.filterMap contentLengthText).head? with
  | none => .emit ⟨line, readFields fields, none⟩ () rest
  | some text =>
      match parseDecimal text with
      | none => .fail ()
      | some length =>
          if length ≤ rest.length then
            match utf8Decode (rest.take length) with
            | none => .fail ()
            | some body => .emit ⟨line, readFields fields, some body⟩ () (rest.drop length)
          else .more () b

/-- Take one request off the bytes that have arrived. -/
def takeRequest (_ : Unit) (b : Bytes) : Step Unit UInt8 Request Unit :=
  match Pattern.find HEADER_TERMINATOR b with
  | none => .more () b
  | some pos =>
      match (utf8Decode (b.take pos)).map (List.splitOn '\n') with
      | some (line :: fields) => takeBody line fields b (b.drop (pos + 2))
      | _ => .fail ()

theorem takeBody_append {line : Str} {fields : List Str} {b rest x : Bytes}
    (h : takeRequest () (b ++ x) = takeBody line fields (b ++ x) (rest ++ x)) :
    takeBody line fields (b ++ x) (rest ++ x) =
      (takeBody line fields b rest).extend takeRequest x := by
  cases htext : (fields.filterMap contentLengthText).head? with
  | none => simp only [takeBody, htext, Step.extend]
  | some text =>
      cases hlength : parseDecimal text with
      | none => simp only [takeBody, htext, hlength, Step.extend]
      | some length =>
          by_cases hle : length ≤ rest.length
          · have hle' : length ≤ (rest ++ x).length := by
              rw [List.length_append]
              omega
            simp only [takeBody, htext, hlength, if_pos hle, if_pos hle',
              List.take_append_of_le_length hle, List.drop_append_of_le_length hle]
            cases utf8Decode (rest.take length) <;> rfl
          · -- the peer waits for the body and then reads the block again
            have hmore : takeBody line fields b rest = .more () b := by
              simp only [takeBody, htext, hlength, if_neg hle]
            rw [hmore, Step.extend, h]

theorem takeRequest_append (b x : Bytes) :
    takeRequest () (b ++ x) = (takeRequest () b).extend takeRequest x := by
  cases hpos : Pattern.find HEADER_TERMINATOR b with
  | none =>
      have hmore : takeRequest () b = .more () b := by rw [takeRequest, hpos]
      rw [hmore, Step.extend]
  | some pos =>
      have hle : pos + 2 ≤ b.length := Pattern.add_length_le_of_find hpos
      have htake : (b ++ x).take pos = b.take pos := List.take_append_of_le_length (by omega)
      have hdrop : (b ++ x).drop (pos + 2) = b.drop (pos + 2) ++ x :=
        List.drop_append_of_le_length hle
      cases hblock : (utf8Decode (b.take pos)).map (List.splitOn '\n') with
      | none =>
          simp only [takeRequest, hpos, Pattern.find_append hpos x, htake, hblock, Step.extend]
      | some ls =>
          cases ls with
          | nil =>
              simp only [takeRequest, hpos, Pattern.find_append hpos x, htake, hblock, Step.extend]
          | cons line fields =>
              have hlong : takeRequest () (b ++ x) =
                  takeBody line fields (b ++ x) (b.drop (pos + 2) ++ x) := by
                simp only [takeRequest, Pattern.find_append hpos x, htake, hblock, hdrop]
              have hshort : takeRequest () b = takeBody line fields b (b.drop (pos + 2)) := by
                simp only [takeRequest, hpos, hblock]
              rw [hshort, ← takeBody_append hlong]
              exact hlong

theorem takeBody_eq_emit {line : Str} {fields : List Str} {b rest rest' : Bytes} {r : Request}
    (h : takeBody line fields b rest = .emit r () rest') : rest'.length ≤ rest.length := by
  unfold takeBody at h
  split at h
  · cases h
    exact le_rfl
  · split at h
    · cases h
    · split at h
      · split at h
        · cases h
        · cases h
          rw [List.length_drop]
          omega
      · cases h

theorem takeRequest_length_lt {b rest : Bytes} {r : Request}
    (h : takeRequest () b = .emit r () rest) : rest.length < b.length := by
  unfold takeRequest at h
  split at h
  · cases h
  · rename_i pos hpos
    split at h
    · have hle := takeBody_eq_emit h
      have hpos : pos + 2 ≤ b.length := Pattern.add_length_le_of_find hpos
      rw [List.length_drop] at hle
      omega
    · cases h

/-- The peer as a resumable decoder. -/
def requests : Decoder Unit UInt8 Request Unit where
  step := takeRequest
  measure _ b := b.length
  step_append _ b x := takeRequest_append b x
  measure_lt h := takeRequest_length_lt h

/-! ## Commands -/

/-- What the line of a request starts with. -/
inductive Verb where
  | auth
  | userAuth
  | api
  | bgApi
  | event
  | filter
  | sendMsg
  | exit
  | log
  | noLog
  | noOp
  | sendEvent
  | myEvents
  | linger
  | noLinger
  | resume
  | nixEvent
  | noEvents
  | divertEvents
  | getVar
  | connect
  deriving DecidableEq

namespace Verb

def keyword : Verb → String
  | auth => "auth"
  | userAuth => "userauth"
  | api => "api"
  | bgApi => "bgapi"
  | event => "event"
  | filter => "filter"
  | sendMsg => "sendmsg"
  | exit => "exit"
  | log => "log"
  | noLog => "nolog"
  | noOp => "noop"
  | sendEvent => "sendevent"
  | myEvents => "myevents"
  | linger => "linger"
  | noLinger => "nolinger"
  | resume => "resume"
  | nixEvent => "nixevent"
  | noEvents => "noevents"
  | divertEvents => "divert_events"
  | getVar => "getvar"
  | connect => "connect"

def all : List Verb :=
  [auth, userAuth, api, bgApi, event, filter, sendMsg, exit, log, noLog, noOp, sendEvent, myEvents,
   linger, noLinger, resume, nixEvent, noEvents, divertEvents, getVar, connect]

def ofWord (word : Str) : Option Verb := all.find? fun v ↦ decide (v.keyword.toList = word)

theorem ofWord_keyword (v : Verb) : ofWord v.keyword.toList = some v := by
  cases v <;> decide +kernel

theorem isKeyword_keyword (v : Verb) : EslCommand.isKeyword v.keyword.toList = true := by
  cases v <;> decide +kernel

theorem space_notMem_keyword (v : Verb) : ' ' ∉ v.keyword.toList := by
  cases v <;> decide +kernel

end Verb

namespace Request

/-- The first word of a line, and what follows the blank behind it. -/
def splitWord (s : Str) : Str × Option Str :=
  match splitOnce ' ' s with
  | some (word, rest) => (word, some rest)
  | none => (s, none)

def readFilter (argument : Str) : Option EslCommand :=
  match splitWord argument with
  | (header, some rest) =>
      if header = "delete".toList then
        some (.filterDelete (splitWord rest).1 (splitWord rest).2)
      else some (.filter header rest)
  | (_, none) => none

/-- The command with this first word, its fields told apart. -/
def readVerb (r : Request) : Verb → Option Str → Option EslCommand
  | .auth, some a => some (.auth a)
  | .userAuth, some a => (splitOnce ':' a).map fun p ↦ .userAuth p.1 p.2
  | .api, some a => some (.api a)
  | .bgApi, some a => some (.bgApi a)
  | .event, some a => (splitOnce ' ' a).map fun p ↦ .events p.1 p.2
  | .filter, some a => readFilter a
  | .sendMsg, uuid => some (.sendMsg uuid ⟨none, r.headers, r.body⟩)
  | .exit, none => some .exit
  | .log, some a => some (.log a)
  | .noLog, none => some .noLog
  | .noOp, none => some .noOp
  | .sendEvent, some a =>
      some (.sendEvent ⟨EslEventType.parseEventType a, r.headers, r.body⟩)
  | .myEvents, some a =>
      match splitWord a with
      | (uuid, some format) => some (.myEvents format (some uuid))
      | (format, none) => some (.myEvents format none)
  | .linger, none => some (.linger none)
  | .linger, some a => (parseU32 a).map fun n ↦ .linger (some (.ofNat n))
  | .noLinger, none => some .noLinger
  | .resume, none => some .resume
  | .nixEvent, some a => some (.nixEvent a)
  | .noEvents, none => some .noEvents
  | .divertEvents, some a =>
      if a = "on".toList then some (.divertEvents true)
      else if a = "off".toList then some (.divertEvents false)
      else none
  | .getVar, some a => some (.getVar a)
  | .connect, none => some .connect
  | _, _ => none

def command (r : Request) : Option EslCommand :=
  (Verb.ofWord (splitWord r.line).1).bind fun v ↦ r.readVerb v (splitWord r.line).2

theorem splitWord_append {s : Str} (hs : ' ' ∉ s) (t : Str) :
    splitWord (s ++ ' ' :: t) = (s, some t) := by
  rw [splitWord, splitOnce_append hs]

theorem splitWord_of_notMem {s : Str} (hs : ' ' ∉ s) : splitWord s = (s, none) := by
  rw [splitWord, splitOnce_eq_none_iff.mpr hs]

theorem readFilter_delete (rest : Str) :
    readFilter ("delete".toList ++ ' ' :: rest) =
      some (.filterDelete (splitWord rest).1 (splitWord rest).2) := by
  rw [readFilter, splitWord_append (by decide)]
  exact if_pos rfl

theorem readFilter_append {header : Str} (hspace : ' ' ∉ header)
    (hdelete : header ≠ "delete".toList) (value : Str) :
    readFilter (header ++ ' ' :: value) = some (.filter header value) := by
  rw [readFilter, splitWord_append hspace]
  exact if_neg hdelete

/-- What follows the first word of a line, when the line has these arguments. -/
def joinWords : List Str → Option Str
  | [] => none
  | a :: args => some (a ++ args.flatMap fun a ↦ ' ' :: a)

theorem command_of_line {r : Request} {v : Verb} {args : List Str}
    (hline : r.line = v.keyword.toList ++ args.flatMap fun a ↦ ' ' :: a) :
    r.command = r.readVerb v (joinWords args) := by
  have hspace := v.space_notMem_keyword
  have hsplit : splitWord r.line = (v.keyword.toList, joinWords args) := by
    rw [hline]
    cases args with
    | nil => rw [List.flatMap_nil, List.append_nil, splitWord_of_notMem hspace, joinWords]
    | cons a args => rw [List.flatMap_cons, List.cons_append, splitWord_append hspace, joinWords]
  rw [command, hsplit, Verb.ofWord_keyword, Option.bind_some]

end Request

/-! ## What a command writes -/

namespace EslCommand

def verb : EslCommand → Verb
  | auth _ => .auth
  | userAuth _ _ => .userAuth
  | api _ => .api
  | bgApi _ => .bgApi
  | events _ _ => .event
  | filter _ _ | filterDelete _ _ => .filter
  | sendMsg _ _ | execute _ _ _ => .sendMsg
  | exit => .exit
  | log _ => .log
  | noLog => .noLog
  | noOp => .noOp
  | sendEvent _ => .sendEvent
  | myEvents _ _ => .myEvents
  | linger _ => .linger
  | noLinger => .noLinger
  | resume => .resume
  | nixEvent _ => .nixEvent
  | noEvents => .noEvents
  | divertEvents _ => .divertEvents
  | getVar _ => .getVar
  | connect => .connect

/-- The words behind the first one. -/
def arguments : EslCommand → List Str
  | auth a | api a | bgApi a | log a | nixEvent a | getVar a => [a]
  | userAuth user password => [user ++ ':' :: password]
  | events format list => [format, list]
  | filter header value => [header, value]
  | sendMsg uuid _ | execute _ _ uuid => uuid.toList
  | sendEvent event => [sendEventName event]
  | myEvents format uuid => uuid.toList ++ [format]
  | linger timeout => (timeout.map fun n ↦ displayNat n.toNat).toList
  | filterDelete header value =>
      if header = "all".toList then ["delete".toList, "all".toList]
      else "delete".toList :: header :: value.toList
  | divertEvents on => [if on then "on".toList else "off".toList]
  | exit | noLog | noOp | noLinger | resume | noEvents | connect => []

def line (c : EslCommand) : Str :=
  c.verb.keyword.toList ++ c.arguments.flatMap fun a ↦ ' ' :: a

theorem eq_ok_of_bind {α : Type} {check : EslResult Unit} {f : Unit → EslResult α} {a : α}
    (h : (check >>= f) = .ok a) : f () = .ok a := by
  obtain ⟨_, -, h⟩ := bind_eq_ok.mp h
  exact h

theorem simple_of_toWireFormat {order : HashOrder} {c : EslCommand} {w : Str}
    (hevent : c.attachedEvent = none) (h : c.toWireFormat order = .ok w) :
    w = formatSimpleCommand c.verb.keyword c.arguments := by
  cases c with
  | auth _ | api _ | bgApi _ | log _ | nixEvent _ | getVar _ =>
      have h := eq_ok_of_bind h
      exact (Except.ok.inj h).symm
  | userAuth _ _ | events _ _ | filter _ _ =>
      have h := eq_ok_of_bind (eq_ok_of_bind h)
      exact (Except.ok.inj h).symm
  | myEvents _ uuid =>
      have h := eq_ok_of_bind (eq_ok_of_bind h)
      cases uuid <;> exact (Except.ok.inj h).symm
  | linger timeout => cases timeout <;> exact (Except.ok.inj h).symm
  | filterDelete header value =>
      have h := eq_ok_of_bind (eq_ok_of_bind h)
      split at h
      · rename_i hall
        rw [arguments, if_pos hall]
        exact (Except.ok.inj h).symm
      · rename_i hall
        rw [arguments, if_neg hall]
        cases value <;> exact (Except.ok.inj h).symm
  | exit | noLog | noOp | noLinger | resume | noEvents | divertEvents _ | connect =>
      exact (Except.ok.inj h).symm
  | sendMsg _ _ | execute _ _ _ | sendEvent _ => cases hevent

theorem newline_notMem_arguments {order : HashOrder} {c : EslCommand} {w : Str}
    (h : c.toWireFormat order = .ok w) : ∀ a ∈ c.arguments, '\n' ∉ a := by
  have hclean : ∀ s, c.HasText s → '\n' ∉ s := fun s hs hmem ↦
    isOk_toWireFormat_iff.mp ⟨w, h⟩ s hs (Or.inl hmem)
  intro a ha
  cases c with
  | auth _ | api _ | bgApi _ | log _ | nixEvent _ | getVar _ =>
      exact hclean a (List.mem_singleton.mp ha)
  | userAuth user password =>
      obtain rfl := List.mem_singleton.mp ha
      simpa using ⟨hclean user (Or.inl rfl), hclean password (Or.inr rfl)⟩
  | events _ _ | filter _ _ => exact hclean a (by simpa [arguments, HasText] using ha)
  | sendMsg uuid _ => exact hclean a (Or.inl (by simpa [arguments] using ha))
  | execute _ _ uuid => exact hclean a (Or.inr (Or.inr (by simpa [arguments] using ha)))
  | sendEvent event =>
      obtain rfl := List.mem_singleton.mp ha
      apply newline_notMem_sendEventName
      intro value hvalue
      exact hclean value ⟨HEADER_EVENT_NAME, value, hvalue, Or.inr rfl⟩
  | myEvents _ uuid => exact hclean a (by simpa [arguments, HasText, or_comm] using ha)
  | linger timeout =>
      cases timeout with
      | none => cases ha
      | some n =>
          obtain rfl := List.mem_singleton.mp ha
          exact newline_notMem_displayNat _
  | filterDelete header value =>
      rw [arguments] at ha
      split at ha
      · revert a
        decide
      · rcases List.mem_cons.mp ha with rfl | ha
        · decide
        · exact hclean a (by simpa [HasText] using ha)
  | divertEvents on =>
      obtain rfl := List.mem_singleton.mp ha
      cases on <;> decide
  | exit | noLog | noOp | noLinger | resume | noEvents | connect => cases ha

/-- The line, the header lines and the body that an accepted command writes. -/
theorem writes_line {order : HashOrder} {c : EslCommand} {w : Str}
    (h : c.toWireFormat order = .ok w) :
    Writes c.line (c.attachedEntries order) c.attachedBody w := by
  have hargs := newline_notMem_arguments h
  have hrest : '\n' ∉ c.arguments.flatMap fun a ↦ ' ' :: a := by
    intro hmem
    obtain ⟨a, ha, hmem⟩ := List.mem_flatMap.mp hmem
    rcases List.mem_cons.mp hmem with hspace | hmem
    · exact absurd hspace (by decide)
    · exact hargs a ha hmem
  have hsendMsg : ∀ uuid event, sendMsgToWireFormat order uuid event = .ok w →
      buildWithEvent order ("sendmsg".toList ++ uuid.toList.flatMap fun a ↦ ' ' :: a) event =
        .ok w := by
    intro uuid event h
    have hline : sendMsgLine uuid = "sendmsg".toList ++ uuid.toList.flatMap fun a ↦ ' ' :: a := by
      cases uuid with
      | none => rfl
      | some u =>
          rw [Option.toList_some, List.flatMap_singleton]
          rfl
    rw [← hline]
    exact eq_ok_of_bind h
  cases c with
  | sendMsg uuid event =>
      rw [toWireFormat] at h
      exact writes_buildWithEvent (Verb.isKeyword_keyword .sendMsg) hrest (hsendMsg uuid event h)
  | execute app args uuid =>
      have h : sendMsgToWireFormat order uuid (executeEvent app args) = .ok w :=
        eq_ok_of_bind (eq_ok_of_bind (eq_ok_of_bind h))
      exact writes_buildWithEvent (Verb.isKeyword_keyword .sendMsg) hrest (hsendMsg uuid _ h)
  | sendEvent event =>
      refine writes_buildWithEvent (Verb.isKeyword_keyword .sendEvent) hrest ?_
      rw [← h, toWireFormat]
      simp [arguments, verb, Verb.keyword]
  | auth _ | userAuth _ _ | api _ | bgApi _ | events _ _ | filter _ _ | exit | log _ | noLog | noOp
  | myEvents _ _ | linger _ | noLinger | resume | nixEvent _ | noEvents | filterDelete _ _
  | divertEvents _ | getVar _ | connect =>
      rw [simple_of_toWireFormat rfl h]
      exact writes_formatSimpleCommand (Verb.isKeyword_keyword _) hargs

/-! ## What a peer reads -/

end EslCommand

/-- No name of a header ends early, and none stands for the length of the body. -/
def EslEvent.Legible (event : EslEvent) : Prop :=
  ∀ name value, event.header name = some value → ':' ∉ name ∧ trim name ≠ HEADER_CONTENT_LENGTH

namespace EslCommand

/-- Every field but the last ends where the next separator stands. -/
def Legible : EslCommand → Prop
  | userAuth user _ => ':' ∉ user
  | events format _ => ' ' ∉ format
  | filter header _ => ' ' ∉ header ∧ header ≠ "delete".toList
  | filterDelete header _ => ' ' ∉ header
  | myEvents _ (some uuid) => ' ' ∉ uuid
  | myEvents format none => ' ' ∉ format
  | sendMsg _ event | sendEvent event => event.Legible
  | _ => True

/-- The command that the peer understands.  An application is executed through a
message, no filter is left to tell apart when all go, and an event has the type
that its name stands for. -/
def received : EslCommand → EslCommand
  | execute app args uuid => sendMsg uuid (executeEvent app args)
  | sendMsg uuid event => sendMsg uuid (event.setEventType none)
  | sendEvent event =>
      sendEvent (event.setEventType (EslEventType.parseEventType (sendEventName event)))
  | filterDelete header value =>
      filterDelete header (if header = "all".toList then none else value)
  | c => c

def request (c : EslCommand) : Request where
  line := c.line
  headers := (c.attachedEvent.map EslEvent.headers).getD HeaderMap.empty
  body := c.attachedBody

theorem readField_headerLine {p : Str × Str} (h : ':' ∉ p.1) :
    readField (CommandBuilder.headerLine p) = p := by
  have hline : CommandBuilder.headerLine p = p.1 ++ ':' :: ' ' :: p.2 := by
    simp [CommandBuilder.headerLine]
  rw [hline, readField, splitOnce_append h]
  rfl

theorem contentLengthText_headerLine {p : Str × Str} (h : ':' ∉ p.1)
    (hname : trim p.1 ≠ HEADER_CONTENT_LENGTH) :
    contentLengthText (CommandBuilder.headerLine p) = none := by
  have hline : CommandBuilder.headerLine p = p.1 ++ ':' :: ' ' :: p.2 := by
    simp [CommandBuilder.headerLine]
  rw [hline, contentLengthText, splitOnce_append h, Option.bind_some, if_neg hname]

/-- A peer takes a written block for its line, its headers and its body. -/
theorem Writes.takeRequest {order : HashOrder} {line w : Str} {headers : HeaderMap}
    {body : Option Str} (h : Writes line (order.entries headers) body w)
    (hlegible : ∀ name value, headers.get name = some value →
      ':' ∉ name ∧ trim name ≠ HEADER_CONTENT_LENGTH) (rest : Bytes) :
    takeRequest () (utf8Encode w ++ rest) = .emit ⟨line, headers, body⟩ () rest := by
  have hclean := h.lines_clean
  have hentry : ∀ p ∈ order.entries headers,
      ':' ∉ p.1 ∧ contentLengthText (CommandBuilder.headerLine p) = none := by
    intro p hp
    obtain ⟨hcolon, hname⟩ := hlegible p.1 p.2 (order.mem_entries_iff.mp hp)
    exact ⟨hcolon, contentLengthText_headerLine hcolon hname⟩
  have hfilter : ((order.entries headers).map CommandBuilder.headerLine).filterMap
      contentLengthText = [] := by
    rw [List.filterMap_eq_nil_iff]
    intro l hl
    obtain ⟨p, hp, rfl⟩ := List.mem_map.mp hl
    exact (hentry p hp).2
  have hkept : ((order.entries headers).map CommandBuilder.headerLine).filter
      (fun l ↦ (contentLengthText l).isNone) =
        (order.entries headers).map CommandBuilder.headerLine := by
    rw [List.filter_eq_self]
    intro l hl
    obtain ⟨p, hp, rfl⟩ := List.mem_map.mp hl
    rw [(hentry p hp).2]
    rfl
  have hread : ((order.entries headers).map CommandBuilder.headerLine).map readField =
      order.entries headers := by
    rw [List.map_map]
    conv_rhs => rw [← List.map_id (order.entries headers)]
    exact List.map_congr_left fun p hp ↦ readField_headerLine (hentry p hp).1
  have hfields : readFields ((order.entries headers).map CommandBuilder.headerLine ++
      CommandBuilder.lengthLines body) = headers := by
    have hlength : (CommandBuilder.lengthLines body).filter
        (fun l ↦ (contentLengthText l).isNone) = [] := by
      cases body with
      | none => rfl
      | some b =>
          rw [CommandBuilder.lengthLines, List.filter_singleton, contentLengthText_lengthLine]
          rfl
    rw [readFields, List.filter_append, hkept, hlength, List.append_nil, hread,
      order.ofList_entries]
  have hbytes : utf8Encode w ++ rest =
      utf8Encode (['
'].intercalate (line :: (order.entries headers).map
        CommandBuilder.headerLine ++ CommandBuilder.lengthLines body)) ++
        (HEADER_TERMINATOR ++ (utf8Encode (body.getD []) ++ rest)) := by
    rw [h.text_eq]
    simp [utf8Encode_cons, HEADER_TERMINATOR, String.utf8EncodeChar]
  have hfind := find_terminator (by simp) hclean (utf8Encode (body.getD []) ++ rest)
  have hsplit := List.splitOn_intercalate '\n' (fun l hl ↦ (hclean l hl).2) (by simp)
  have hafter : ∀ u v : Bytes, (u ++ (HEADER_TERMINATOR ++ v)).drop (u.length + 2) = v := by
    intro u v
    rw [← List.drop_drop, List.drop_left]
    rfl
  generalize ['\n'].intercalate (line :: (order.entries headers).map CommandBuilder.headerLine ++
    CommandBuilder.lengthLines body) = block at hbytes hfind hsplit
  rw [List.cons_append] at hsplit
  rw [hbytes]
  simp only [FreeswitchEsl.takeRequest, hfind, List.take_left, utf8Decode_utf8Encode,
    Option.map_some, hsplit, hafter]
  unfold takeBody
  rw [hfields, List.filterMap_append, hfilter]
  cases body with
  | none => rfl
  | some b =>
      have hlength : (CommandBuilder.lengthLines (some b)).filterMap contentLengthText =
          [displayNat (utf8Encode b).length] := by
        rw [CommandBuilder.lengthLines, List.filterMap_cons, contentLengthText_lengthLine]
        rfl
      rw [hlength]
      simp [parseDecimal_displayNat]

theorem readVerb_filterDelete (r : Request) {header : Str} {value : Option Str}
    (h : ' ' ∉ header) :
    r.readVerb .filter (Request.joinWords (filterDelete header value).arguments) =
      some (filterDelete header value).received := by
  rw [arguments, received]
  split
  · rename_i hall
    subst hall
    rfl
  · cases value with
    | none =>
        change Request.readFilter ("delete".toList ++ ' ' :: (header ++ [])) = _
        rw [List.append_nil, Request.readFilter_delete, Request.splitWord_of_notMem h]
    | some v =>
        change Request.readFilter ("delete".toList ++ ' ' :: (header ++ ' ' :: (v ++ []))) = _
        rw [List.append_nil, Request.readFilter_delete, Request.splitWord_append h]

theorem readVerb_sendMsg (r : Request) (uuid : Option Str) :
    r.readVerb .sendMsg (Request.joinWords uuid.toList) =
      some (sendMsg uuid ⟨none, r.headers, r.body⟩) := by
  cases uuid with
  | none => rfl
  | some u =>
      rw [Option.toList_some, Request.joinWords, List.flatMap_nil, List.append_nil]
      rfl

theorem readVerb_myEvents (r : Request) {format : Str} {uuid : Option Str}
    (h : (myEvents format uuid).Legible) :
    r.readVerb .myEvents (Request.joinWords (myEvents format uuid).arguments) =
      some (myEvents format uuid) := by
  cases uuid with
  | none =>
      change r.readVerb .myEvents (some (format ++ [])) = _
      rw [List.append_nil, Request.readVerb, Request.splitWord_of_notMem h]
  | some u =>
      change r.readVerb .myEvents (some (u ++ ' ' :: (format ++ []))) = _
      rw [List.append_nil, Request.readVerb, Request.splitWord_append h]

theorem readVerb_linger (r : Request) (timeout : Option UInt32) :
    r.readVerb .linger (Request.joinWords (linger timeout).arguments) = some (linger timeout) := by
  cases timeout with
  | none => rfl
  | some n =>
      change r.readVerb .linger (some (displayNat n.toNat ++ [])) = _
      have hparse : parseU32 (displayNat n.toNat) = some n.toNat :=
        parseUnsigned_displayNat n.toNat_lt
      rw [List.append_nil, Request.readVerb, hparse, Option.map_some, UInt32.ofNat_toNat]

/-- Taken apart again, the request is the command. -/
theorem command_request {c : EslCommand} (h : c.Legible) :
    c.request.command = some c.received := by
  have hline : c.request.line = c.verb.keyword.toList ++ c.arguments.flatMap fun a ↦ ' ' :: a := rfl
  rw [Request.command_of_line hline]
  cases c with
  | auth _ | api _ | bgApi _ | log _ | nixEvent _ | getVar _ =>
      simp [arguments, Request.joinWords, verb, Request.readVerb, received]
  | userAuth _ _ | events _ _ =>
      simp [arguments, Request.joinWords, verb, Request.readVerb, received, splitOnce_append h]
  | filter header value =>
      change Request.readFilter (header ++ ' ' :: (value ++ [])) = _
      rw [List.append_nil, Request.readFilter_append h.1 h.2]
      rfl
  | filterDelete header value => exact readVerb_filterDelete _ h
  | sendMsg uuid event => exact readVerb_sendMsg _ uuid
  | execute app args uuid =>
      refine (readVerb_sendMsg _ uuid).trans ?_
      cases args <;> rfl
  | sendEvent event =>
      rw [arguments, Request.joinWords, List.flatMap_nil, List.append_nil]
      rfl
  | myEvents format uuid => exact readVerb_myEvents _ h
  | linger timeout => exact readVerb_linger _ timeout
  | divertEvents on => cases on <;> rfl
  | exit | noLog | noOp | noLinger | resume | noEvents | connect => rfl

theorem legible_executeEvent (app : Str) (args : Option Str) : (executeEvent app args).Legible := by
  intro name value hvalue
  rcases header_executeEvent hvalue with ⟨rfl, -⟩ | ⟨rfl, -⟩ | ⟨rfl, -⟩ <;> decide

theorem Legible.attachedEvent {c : EslCommand} (h : c.Legible) {event : EslEvent}
    (hevent : c.attachedEvent = some event) : event.Legible := by
  cases c with
  | sendMsg _ _ | sendEvent _ =>
      obtain rfl := Option.some.inj hevent
      exact h
  | execute app args _ =>
      obtain rfl := Option.some.inj hevent
      exact legible_executeEvent app args
  | _ => cases hevent

theorem attachedEntries_eq (order : HashOrder) (c : EslCommand) :
    c.attachedEntries order = order.entries c.request.headers := by
  unfold attachedEntries request
  cases c.attachedEvent with
  | some event => rfl
  | none =>
      refine (List.eq_nil_iff_forall_not_mem.mpr ?_).symm
      rintro ⟨name, value⟩ hp
      have hget := order.mem_entries_iff.mp hp
      cases hget

theorem Legible.headers {c : EslCommand} (h : c.Legible) {name value : Str}
    (hvalue : c.request.headers.get name = some value) :
    ':' ∉ name ∧ trim name ≠ HEADER_CONTENT_LENGTH := by
  unfold request at hvalue
  cases hevent : c.attachedEvent with
  | none =>
      rw [hevent] at hvalue
      cases hvalue
  | some event =>
      rw [hevent] at hvalue
      exact h.attachedEvent hevent name value hvalue

/-- A peer takes exactly one request off the text of a command, whatever stands
behind it. -/
theorem takeRequest_of_toWireFormat {order : HashOrder} {c : EslCommand} {w : Str}
    (h : c.toWireFormat order = .ok w) (hlegible : c.Legible) (rest : Bytes) :
    takeRequest () (utf8Encode w ++ rest) = .emit c.request () rest := by
  have hwrites := writes_line h
  rw [attachedEntries_eq] at hwrites
  exact hwrites.takeRequest (fun _ _ ↦ hlegible.headers) rest

/-- The bytes that a command may put on the wire. -/
def WritesAs (c : EslCommand) (b : Bytes) : Prop :=
  ∃ order w, c.toWireFormat order = .ok w ∧ b = utf8Encode w

theorem WritesAs.takeRequest {c : EslCommand} {b : Bytes} (h : c.WritesAs b)
    (hlegible : c.Legible) (rest : Bytes) :
    FreeswitchEsl.takeRequest () (b ++ rest) = .emit c.request () rest := by
  obtain ⟨order, w, hw, rfl⟩ := h
  exact takeRequest_of_toWireFormat hw hlegible rest

/-- The peer waits until the whole text has come. -/
theorem WritesAs.takeRequest_part {c : EslCommand} {b part rest : Bytes} (h : c.WritesAs b)
    (hlegible : c.Legible) (hb : part ++ rest = b) (hne : rest ≠ []) :
    ∃ left, FreeswitchEsl.takeRequest () part = .more () left := by
  have hwhole := h.takeRequest hlegible []
  rw [List.append_nil, ← hb, takeRequest_append] at hwhole
  cases hpart : FreeswitchEsl.takeRequest () part with
  | more state left => exact ⟨left, rfl⟩
  | emit r state left =>
      rw [hpart, Step.extend] at hwhole
      have hnil : left ++ rest = [] := by injection hwhole
      exact absurd (List.append_eq_nil_iff.mp hnil).2 hne
  | fail e =>
      rw [hpart, Step.extend] at hwhole
      cases hwhole

end EslCommand

/-! ## A stream of commands -/

/-- The commands that a peer has read off the bytes so far; nothing stands for a
request that it does not understand. -/
def readCommands (b : Bytes) : List (Option EslCommand) :=
  (requests.drain () b).1.map Request.command

theorem readCommands_nil : readCommands [] = [] := by
  have hmore : requests.step () [] = .more () [] := rfl
  rw [readCommands, requests.drain_of_more hmore, List.map_nil]

theorem readCommands_append (b x : Bytes) : readCommands b <+: readCommands (b ++ x) :=
  (requests.drain_prefix_append () b x).map Request.command

theorem readCommands_part {c : EslCommand} {b part rest : Bytes} (h : c.WritesAs b)
    (hlegible : c.Legible) (hb : part ++ rest = b) (hne : rest ≠ []) : readCommands part = [] := by
  obtain ⟨left, hmore⟩ := h.takeRequest_part hlegible hb hne
  rw [readCommands, requests.drain_of_more hmore, List.map_nil]

theorem readCommands_flatten {cs : List EslCommand} {bs : List Bytes}
    (hlegible : ∀ c ∈ cs, c.Legible) (h : List.Forall₂ EslCommand.WritesAs cs bs) (rest : Bytes) :
    readCommands (bs.flatten ++ rest) =
      cs.map (fun c ↦ some c.received) ++ readCommands rest := by
  induction h with
  | nil => rfl
  | @cons c b cs bs hwrites _ ih =>
      have hc := hlegible c List.mem_cons_self
      have hemit := hwrites.takeRequest hc (bs.flatten ++ rest)
      rw [readCommands] at ih ⊢
      rw [List.flatten_cons, List.append_assoc, requests.drain_of_emit hemit, List.map_cons,
        EslCommand.command_request hc, ih fun d hd ↦ hlegible d (List.mem_cons_of_mem _ hd)]
      rfl

/-- A peer that reads the texts of commands one behind the other, and a part of the
next one, knows exactly the commands that it has seen whole. -/
theorem commands_read_back {cs : List EslCommand} {bs : List Bytes} {c : EslCommand}
    {part rest : Bytes} (hlegible : ∀ d ∈ c :: cs, d.Legible)
    (h : List.Forall₂ EslCommand.WritesAs cs bs) (hc : c.WritesAs (part ++ rest))
    (hne : rest ≠ []) :
    readCommands (bs.flatten ++ part) = cs.map fun d ↦ some d.received := by
  rw [readCommands_flatten (fun d hd ↦ hlegible d (List.mem_cons_of_mem _ hd)) h,
    readCommands_part hc (hlegible c List.mem_cons_self) rfl hne, List.append_nil]

def talkEvent : EslEvent := (EslEvent.new.setEventType (some .talk)).setBody "hi".toList

/-- An application and an event, and then the first half of a command. -/
theorem commands_read_back_execute :
    readCommands ([utf8Encode
        "sendmsg 7\ncall-command: execute\nexecute-app-name: park\n\n".toList,
        utf8Encode "sendevent TALK\nContent-Length: 2\n\nhi".toList].flatten ++
        utf8Encode "api sta".toList) =
      [some (.sendMsg (some "7".toList) (EslCommand.executeEvent "park".toList none)),
        some (.sendEvent talkEvent)] := by
  refine @commands_read_back
    [.execute "park".toList none (some "7".toList), .sendEvent talkEvent] _ (.api "status".toList)
    _ (utf8Encode "tus\n\n".toList) ?_ (.cons ?_ (.cons ?_ .nil)) ?_ (by decide)
  · intro d hd
    simp only [List.mem_cons, List.not_mem_nil, or_false] at hd
    rcases hd with rfl | rfl | rfl
    · trivial
    · trivial
    · intro name value hvalue
      cases hvalue
  · exact ⟨.byName, _, by decide +kernel, rfl⟩
  · exact ⟨.byName, _, by decide +kernel, rfl⟩
  · exact ⟨.byName, "api status\n\n".toList, by decide, by decide⟩

end FreeswitchEsl
