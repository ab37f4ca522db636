import FreeswitchEsl.Text

/-!
# Errors

The error type of the crate, its display texts and its classification.  An error
that wraps one of another library is kept as the text it displays.
-/

namespace FreeswitchEsl

open Text

inductive OriginateError where
  | unclosedQuote (token : Str)
  | tooManyApplications
  | parseError (message : Str)
  deriving DecidableEq

def OriginateError.display : OriginateError → Str
  | .unclosedQuote token => "unclosed quote at: ".toList ++ token
  | .tooManyApplications => "too many applications for non-inline dialplan".toList
  | .parseError message => "parse error: ".toList ++ message

inductive EslError where
  | io (error : Str)
  | notConnected
  | authenticationFailed (reason : Str)
  | protocolError (message : Str)
  | commandFailed (replyText : Str)
  | unexpectedReply (replyText : Str)
  | timeout (timeoutMs : Nat)
  | invalidEventFormat (format : Str)
  | jsonError (error : Str)
  | xmlError (error : Str)
  | utf8Error (error : Str)
  | bufferOverflow (size limit : Nat)
  | invalidHeader (header : Str)
  | missingHeader (header : Str)
  | connectionClosed
  | heartbeatExpired (intervalMs : Nat)
  | invalidUuid (uuid : Str)
  | queueFull
  | generic (message : Str)
  | originate (error : OriginateError)
  deriving DecidableEq

namespace EslError

/-- The `Display` texts. -/
def display : EslError → Str
  | io error => "IO error: ".toList ++ error
  | notConnected => "Not connected to FreeSWITCH".toList
  | authenticationFailed reason => "Authentication failed: ".toList ++ reason
  | protocolError message => "Protocol error: ".toList ++ message
  | commandFailed replyText => "Command failed: ".toList ++ replyText
  | unexpectedReply replyText => "Unexpected reply: ".toList ++ replyText
  | timeout timeoutMs =>
      "Operation timed out after ".toList ++ displayNat timeoutMs ++ "ms".toList
  | invalidEventFormat format => "Invalid event format: ".toList ++ format
  | jsonError error => "JSON parsing error: ".toList ++ error
  | xmlError error => "XML parsing error: ".toList ++ error
  | utf8Error error => "UTF-8 conversion error: ".toList ++ error
  | bufferOverflow size limit =>
      "Buffer overflow: message size ".toList ++ displayNat size ++
        " exceeds limit ".toList ++ displayNat limit
  | invalidHeader header => "Invalid header format: ".toList ++ header
  | missingHeader header => "Missing required header: ".toList ++ header
  | connectionClosed => "Connection closed by FreeSWITCH".toList
  | heartbeatExpired intervalMs =>
      "Heartbeat expired after ".toList ++ displayNat intervalMs ++
        "ms without traffic".toList
  | invalidUuid uuid => "Invalid UUID format: ".toList ++ uuid
  | queueFull => "Event queue is full - dropping events".toList
  | generic message => "ESL error: ".toList ++ message
  | originate error => "Originate error: ".toList ++ error.display

/-- `true` if the connection is still usable and the caller can retry. -/
def isRecoverable : EslError → Bool
  | timeout _ | commandFailed _ | unexpectedReply _ | queueFull => true
  | _ => false

/-- `true` if the TCP session is dead and the caller should reconnect. -/
def isConnectionError : EslError → Bool
  | io _ | notConnected | connectionClosed | heartbeatExpired _ => true
  | _ => false

theorem not_isConnectionError_of_isRecoverable {e : EslError} (h : e.isRecoverable = true) :
    e.isConnectionError = false := by
  cases e <;> first | rfl | simp [isRecoverable] at h

end EslError

/-- `Result<T, EslError>`. -/
abbrev EslResult (α : Type) := Except EslError α

theorem map_eq_ok {ε α β : Type} {x : Except ε α} {f : α → β} {b : β} :
    x.map f = .ok b ↔ ∃ a, x = .ok a ∧ f a = b := by
  cases x with
  | error e => simp [Except.map]
  | ok a => simp [Except.map]

theorem toOption_eq_some {ε α : Type} {x : Except ε α} {a : α} :
    x.toOption = some a ↔ x = .ok a := by
  cases x <;> simp [Except.toOption]

theorem bind_eq_ok {ε α β : Type} {x : Except ε α} {f : α → Except ε β} {b : β} :
    (x >>= f) = .ok b ↔ ∃ a, x = .ok a ∧ f a = .ok b := by
  cases x with
  | error e =>
      constructor
      · intro h
        cases h
      · rintro ⟨a, ha, -⟩
        cases ha
  | ok a =>
      constructor
      · intro h
        exact ⟨a, rfl, h⟩
      · rintro ⟨a', ha, h⟩
        cases ha
        exact h

end FreeswitchEsl
