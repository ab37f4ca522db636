import FreeswitchEsl.Error
import FreeswitchEsl.Event

/-!
# Messages and replies

The message types of the protocol, the parsed message, and the response that a
reply message is turned into.
-/

namespace FreeswitchEsl

open Text

/-! ## Constants -/

def MAX_MESSAGE_SIZE : Nat := 8 * 1024 * 1024

/-- The bytes of `HEADER_TERMINATOR`, `"\n\n"`. -/
def HEADER_TERMINATOR : Bytes := [10, 10]

def CONTENT_TYPE_AUTH_REQUEST : Str := "auth/request".toList
def CONTENT_TYPE_COMMAND_REPLY : Str := "command/reply".toList
def CONTENT_TYPE_API_RESPONSE : Str := "api/response".toList
def CONTENT_TYPE_TEXT_EVENT_PLAIN : Str := "text/event-plain".toList
def CONTENT_TYPE_TEXT_EVENT_JSON : Str := "text/event-json".toList
def CONTENT_TYPE_TEXT_EVENT_XML : Str := "text/event-xml".toList

def HEADER_CONTENT_TYPE : Str := "Content-Type".toList
def HEADER_CONTENT_LENGTH : Str := "Content-Length".toList
def HEADER_REPLY_TEXT : Str := "Reply-Text".toList
def HEADER_EVENT_NAME : Str := "Event-Name".toList

/-! ## Messages -/

inductive MessageType where
  | authRequest
  | commandReply
  | apiResponse
  | event
  | disconnect
  | unknown (contentType : Str)
  deriving DecidableEq

def MessageType.fromContentType (contentType : Str) : MessageType :=
  if contentType = CONTENT_TYPE_AUTH_REQUEST then .authRequest
  else if contentType = CONTENT_TYPE_COMMAND_REPLY then .commandReply
  else if contentType = CONTENT_TYPE_API_RESPONSE then .apiResponse
  else if contentType = CONTENT_TYPE_TEXT_EVENT_PLAIN ∨
      contentType = CONTENT_TYPE_TEXT_EVENT_JSON ∨
      contentType = CONTENT_TYPE_TEXT_EVENT_XML ∨ contentType = "log/data".toList then .event
  else if contentType = "text/disconnect-notice".toList then .disconnect
  else .unknown contentType

structure EslMessage where
  messageType : MessageType
  headers : HeaderMap
  body : Option Str
  deriving DecidableEq

/-! ## Responses -/

inductive ReplyStatus where
  | ok
  | err
  | other
  deriving DecidableEq

/-- The status is computed by `new` only; the private fields of the source keep
it in step with the headers, the model derives it. -/
structure EslResponse where
  headers : HeaderMap
  body : Option Str
  deriving DecidableEq

namespace EslResponse

def replyText (r : EslResponse) : Option Str := r.headers.get HEADER_REPLY_TEXT

/-- The status that `EslResponse::new` derives from the `Reply-Text` header. -/
def status (r : EslResponse) : ReplyStatus :=
  match r.replyText with
  | none => .ok
  | some t =>
      if t = [] then .ok
      else if "+OK".toList.isPrefixOf t then .ok
      else if "-ERR".toList.isPrefixOf t then .err
      else .other

/-- `true` if Reply-Text is `+OK` or absent. -/
def isSuccess (r : EslResponse) : Bool := decide (r.status = .ok)

end EslResponse

def EslMessage.intoResponse (m : EslMessage) : EslResponse := ⟨m.headers, m.body⟩

end FreeswitchEsl
