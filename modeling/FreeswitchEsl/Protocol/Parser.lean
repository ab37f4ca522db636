import FreeswitchEsl.Buffer
import FreeswitchEsl.Crates
import FreeswitchEsl.Protocol.Message

/-!
# The stream parser

`EslParser` collects received bytes and cuts them into messages: a header block
closed by a blank line, and a body of `Content-Length` bytes.
-/

namespace FreeswitchEsl

open Text

inductive ParseState where
  | waitingForHeaders
  | waitingForBody (messageType : MessageType) (headers : HeaderMap) (bodyLength : Nat)

structure EslParser where
  buffer : EslBuffer
  state : ParseState

variable (X : Crates)

/-! ## Header lines -/

/-- One `name: value` line, the value percent-decoded; a value whose decoding is
not UTF-8 is kept raw. -/
def parseHeaderLine (line : Str) : Option (Str × Str) :=
  (splitOnce ':' line).map fun p ↦
    let rawValue := trim p.2
    (trim p.1, (X.percentDecodeUtf8 rawValue).getD rawValue)

/-- The loop of `parse_headers` over the remaining lines. -/
def parseHeaderLines : HeaderMap → List Str → EslResult HeaderMap
  | headers, [] => .ok headers
  | headers, line :: rest =>
      let line := trim line
      if line = [] then parseHeaderLines headers rest
      else match parseHeaderLine X line with
        | some (key, value) => parseHeaderLines (headers.insert key value) rest
        | none => .error (.invalidHeader line)

def parseHeaders (headersStr : Str) : EslResult HeaderMap :=
  parseHeaderLines X HeaderMap.empty (lines headersStr)

/-! ## Messages -/

/-- The body length that a header map announces, 0 without `Content-Length`. -/
def bodyLength (headers : HeaderMap) : EslResult Nat :=
  match headers.get HEADER_CONTENT_LENGTH with
  | none => .ok 0
  | some lengthStr =>
      match parseUsize (trim lengthStr) with
      | none => .error (.invalidHeader ("Content-Length: ".toList ++ lengthStr))
      | some length =>
          if MAX_MESSAGE_SIZE < length then
            .error (.protocolError ("Message too large: Content-Length ".toList ++
              displayNat length ++ " exceeds limit ".toList ++ displayNat MAX_MESSAGE_SIZE ++
              ". Protocol error or corrupted data.".toList))
          else .ok length

/-- What `parse_message` makes of an extracted header block: the type, the
headers and the length of the body to wait for. -/
def decodeHeaderBlock (headersData : Bytes) : EslResult (MessageType × HeaderMap × Nat) :=
  match utf8Decode headersData with
  | none => .error (.protocolError "Invalid UTF-8 in headers".toList)
  | some headersStr => do
      let headers ← parseHeaders X headersStr
      match headers.get HEADER_CONTENT_TYPE with
      | none => .error (.protocolError
          "Missing Content-Type header — likely protocol desync".toList)
      | some contentType => do
          let length ← bodyLength headers
          return (MessageType.fromContentType contentType, headers, length)

/-- What `parse_message` makes of an extracted body. -/
def decodeBody (messageType : MessageType) (headers : HeaderMap) (bodyData : Bytes) :
    EslResult EslMessage :=
  match utf8Decode bodyData with
  | none => .error (.protocolError "Invalid UTF-8 in body".toList)
  | some body => .ok ⟨messageType, headers, some body⟩

namespace EslParser

def new : EslParser := ⟨EslBuffer.new, .waitingForHeaders⟩

/-- Append received bytes; the bytes stay in the buffer when the size check
fails. -/
def addData (p : EslParser) (data : Bytes) : EslResult Unit × EslParser :=
  let p := { p with buffer := p.buffer.extendFromSlice data }
  (p.buffer.checkSizeLimits, p)

/-- The `WaitingForBody` arm of `parse_message`. -/
def parseBody (p : EslParser) (messageType : MessageType) (headers : HeaderMap)
    (length : Nat) : EslResult (Option EslMessage) × EslParser :=
  match p.buffer.extractBytes length with
  | none => (.ok none, p)
  | some (bodyData, buffer) =>
      let p := { p with buffer := buffer.compact }
      match decodeBody messageType headers bodyData with
      | .error e => (.error e, p)
      | .ok message => (.ok (some message), { p with state := .waitingForHeaders })

/-- Try to parse a complete message from the buffer.  The source calls itself
after an announced body; that call takes the `WaitingForBody` arm. -/
def parseMessage (p : EslParser) : EslResult (Option EslMessage) × EslParser :=
  match p.state with
  | .waitingForHeaders =>
      match p.buffer.extractUntilPattern HEADER_TERMINATOR with
      | none => (.ok none, p)
      | some (headersData, buffer) =>
          let p := { p with buffer := buffer.compact }
          match decodeHeaderBlock X headersData with
          | .error e => (.error e, p)
          | .ok (messageType, headers, length) =>
              if 0 < length then
                parseBody { p with state := .waitingForBody messageType headers length }
                  messageType headers length
              else (.ok (some ⟨messageType, headers, none⟩),
                { p with state := .waitingForHeaders })
  | .waitingForBody messageType headers length => parseBody p messageType headers length

end EslParser

/-! ## Events -/

/-- The header loop of `parse_plain_event`: lines without a colon are skipped. -/
def parsePlainLines : EslEvent → List Str → EslEvent
  | event, [] => event
  | event, line :: rest =>
      let line := trim line
      if line = [] then parsePlainLines event rest
      else match parseHeaderLine X line with
        | some (key, value) => parsePlainLines (event.setHeader key value) rest
        | none => parsePlainLines event rest

/-- Set the type that the `Event-Name` header names, if there is one. -/
def withEventName (event : EslEvent) : EslEvent :=
  match event.header HEADER_EVENT_NAME with
  | some eventName => event.setEventType (EslEventType.parseEventType eventName)
  | none => event

def splitBlankLine (body : Str) : Str × Option Str :=
  match Pattern.find ['\n', '\n'] body with
  | some pos => (body.take pos, some (body.drop (pos + 2)))
  | none => (body, none)

def parsePlainEvent (message : EslMessage) : EslResult EslEvent :=
  if message.messageType ≠ .event then .error (.protocolError "Not an event message".toList)
  else match message.body with
    | none => .error (.protocolError "Plain event missing body".toList)
    | some body =>
        let parts := splitBlankLine body
        let event := parsePlainLines X EslEvent.new (lines parts.1)
        let event := match parts.2 with
          | some innerBody => if innerBody = [] then event else event.setBody innerBody
          | none => event
        .ok (withEventName event)

def parseJsonEvent (message : EslMessage) : EslResult EslEvent :=
  match message.body with
  | none => .error (.protocolError "JSON event missing body".toList)
  | some body =>
      match X.jsonFromStr body with
      | .error e => .error (.jsonError e)
      | .ok (.object members) =>
          let event := members.foldl (fun event member ↦
            let valueStr := match member.2 with
              | .string s => s
              | value => X.jsonToString value
            event.setHeader member.1 valueStr) EslEvent.new
          .ok (withEventName event)
      | .ok _ => .ok EslEvent.new

/-- The variables of the loop in `parse_xml_event`. -/
structure XmlState where
  event : EslEvent
  inHeaders : Bool
  inBody : Bool
  currentTag : Option Str

def parseXmlStep (s : XmlState) : XmlEvent → EslResult XmlState
  | .start tag => .ok <|
      if tag = "headers".toList then { s with inHeaders := true }
      else if tag = "body".toList then { s with inBody := true }
      else if s.inHeaders then { s with currentTag := some tag }
      else s
  | .endTag tag => .ok <|
      if tag = "headers".toList then { s with inHeaders := false }
      else if tag = "body".toList then { s with inBody := false }
      else if s.inHeaders then { s with currentTag := none }
      else s
  | .text (.error e) => .error (.xmlError e)
  | .text (.ok text) => .ok <|
      if s.inBody then { s with event := s.event.setBody text }
      else match s.currentTag with
        | some tag => { s with event := s.event.setHeader tag text }
        | none => s
  | .other => .ok s

def parseXmlEvent (message : EslMessage) : EslResult EslEvent :=
  match message.body with
  | none => .error (.protocolError "XML event missing body".toList)
  | some body => do
      let reading := X.xmlRead body
      let s ← reading.events.foldlM parseXmlStep ⟨EslEvent.new, false, false, none⟩
      match reading.error with
      | some e => .error (.xmlError e)
      | none => return withEventName s.event

def parseEvent (message : EslMessage) : EventFormat → EslResult EslEvent
  | .plain => parsePlainEvent X message
  | .json => parseJsonEvent X message
  | .xml => parseXmlEvent X message

end FreeswitchEsl
