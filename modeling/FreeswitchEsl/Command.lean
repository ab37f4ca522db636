import FreeswitchEsl.Protocol.Message

/-!
# Commands

The commands of a client and their wire format.  The text fields are checked
for line breaks before anything is written.
-/

namespace FreeswitchEsl

open Text

def validateNoNewlines (s : Str) (context : String) : EslResult Unit :=
  if '\n' ∈ s ∨ '\r' ∈ s then
    .error (.protocolError (context.toList ++ " must not contain newlines".toList))
  else .ok ()

/-! ## Command builder -/

structure CommandBuilder where
  command : Str
  headers : HeaderMap
  body : Option Str

namespace CommandBuilder

def new (command : Str) : CommandBuilder := ⟨command, HeaderMap.empty, none⟩

def header (b : CommandBuilder) (name value : Str) : EslResult CommandBuilder := do
  validateNoNewlines name "header name"
  validateNoNewlines value "header value"
  return { b with headers := b.headers.insert name value }

def setBody (b : CommandBuilder) (body : Str) : CommandBuilder := { b with body := some body }

/-- The text of a header line without its line ending. -/
def headerLine (p : Str × Str) : Str := p.1 ++ ": ".toList ++ p.2

def build (order : HashOrder) (b : CommandBuilder) : Str :=
  let result := b.command ++ ['\n'] ++
    (order.entries b.headers).flatMap (fun p ↦ headerLine p ++ ['\n'])
  match b.body with
  | some body =>
      result ++ "Content-Length: ".toList ++ displayNat (utf8Encode body).length ++ ['\n'] ++
        ['\n'] ++ body
  | none => result ++ ['\n']

end CommandBuilder

/-! ## Commands -/

inductive EslCommand where
  | auth (password : Str)
  | userAuth (user password : Str)
  | api (command : Str)
  | bgApi (command : Str)
  | events (format events : Str)
  | filter (header value : Str)
  | sendMsg (uuid : Option Str) (event : EslEvent)
  | execute (app : Str) (args uuid : Option Str)
  | exit
  | log (level : Str)
  | noLog
  | noOp
  | sendEvent (event : EslEvent)
  | myEvents (format : Str) (uuid : Option Str)
  | linger (timeout : Option UInt32)
  | noLinger
  | resume
  | nixEvent (events : Str)
  | noEvents
  | filterDelete (header : Str) (value : Option Str)
  | divertEvents (on : Bool)
  | getVar (name : Str)
  | connect

namespace EslCommand

def formatSimpleCommand (cmd : String) (args : List Str) : Str :=
  args.foldl (fun result arg ↦ result ++ ' ' :: arg) cmd.toList ++ ['\n', '\n']

/-- The loop that copies the headers and the body of an event. -/
def buildWithEvent (order : HashOrder) (command : Str) (event : EslEvent) : EslResult Str := do
  let builder ← (order.entries event.headers).foldlM
    (fun (b : CommandBuilder) p ↦ b.header p.1 p.2) (CommandBuilder.new command)
  let builder := match event.body with
    | some body => builder.setBody body
    | none => builder
  return builder.build order

def validateOption (s : Option Str) (context : String) : EslResult Unit :=
  match s with
  | some s => validateNoNewlines s context
  | none => .ok ()

def sendMsgLine (uuid : Option Str) : Str :=
  "sendmsg".toList ++ (uuid.map fun u ↦ ' ' :: u).getD []

/-- The `SendMsg` arm of `to_wire_format`, which `Execute` goes through too. -/
def sendMsgToWireFormat (order : HashOrder) (uuid : Option Str) (event : EslEvent) :
    EslResult Str := do
  validateOption uuid "sendmsg uuid"
  buildWithEvent order (sendMsgLine uuid) event

def executeEvent (app : Str) (args : Option Str) : EslEvent :=
  let event := (EslEvent.new.setHeader "call-command".toList "execute".toList).setHeader
    "execute-app-name".toList app
  match args with
  | some args => event.setHeader "execute-app-arg".toList args
  | none => event

def sendEventName (event : EslEvent) : Str :=
  ((event.eventType.map EslEventType.display).or (event.header HEADER_EVENT_NAME)).getD
    "CUSTOM".toList

/-- Validate all user-supplied fields, then convert to wire format.  One order
stands for the iterations over the event's map, which decides which error is
reported, and over the builder's, which decides the text: a call that gets to the
second has no error to report. -/
def toWireFormat (order : HashOrder) : EslCommand → EslResult Str
  | auth password => do
      validateNoNewlines password "password"
      return formatSimpleCommand "auth" [password]
  | userAuth user password => do
      validateNoNewlines user "user"
      validateNoNewlines password "password"
      return formatSimpleCommand "userauth" [user ++ ':' :: password]
  | api command => do
      validateNoNewlines command "api command"
      return formatSimpleCommand "api" [command]
  | bgApi command => do
      validateNoNewlines command "bgapi command"
      return formatSimpleCommand "bgapi" [command]
  | events format list => do
      validateNoNewlines format "event format"
      validateNoNewlines list "event list"
      return formatSimpleCommand "event" [format, list]
  | filter header value => do
      validateNoNewlines header "filter header"
      validateNoNewlines value "filter value"
      return formatSimpleCommand "filter" [header, value]
  | sendMsg uuid event => sendMsgToWireFormat order uuid event
  | execute app args uuid => do
      validateNoNewlines app "execute app"
      validateOption args "execute args"
      validateOption uuid "execute uuid"
      sendMsgToWireFormat order uuid (executeEvent app args)
  | exit => return formatSimpleCommand "exit" []
  | log level => do
      validateNoNewlines level "log level"
      return formatSimpleCommand "log" [level]
  | noLog => return formatSimpleCommand "nolog" []
  | noOp => return formatSimpleCommand "noop" []
  | sendEvent event =>
      buildWithEvent order ("sendevent ".toList ++ sendEventName event) event
  | myEvents format uuid => do
      validateNoNewlines format "myevents format"
      validateOption uuid "myevents uuid"
      return match uuid with
        | some u => formatSimpleCommand "myevents" [u, format]
        | none => formatSimpleCommand "myevents" [format]
  | linger timeout => return match timeout with
      | some n => formatSimpleCommand "linger" [displayNat n.toNat]
      | none => formatSimpleCommand "linger" []
  | noLinger => return formatSimpleCommand "nolinger" []
  | resume => return formatSimpleCommand "resume" []
  | nixEvent list => do
      validateNoNewlines list "nixevent list"
      return formatSimpleCommand "nixevent" [list]
  | noEvents => return formatSimpleCommand "noevents" []
  | filterDelete header value => do
      validateNoNewlines header "filter delete header"
      validateOption value "filter delete value"
      if header = "all".toList then
        return formatSimpleCommand "filter" ["delete".toList, "all".toList]
      else return match value with
        | some v => formatSimpleCommand "filter" ["delete".toList, header, v]
        | none => formatSimpleCommand "filter" ["delete".toList, header]
  | divertEvents on =>
      return formatSimpleCommand "divert_events" [if on then "on".toList else "off".toList]
  | getVar name => do
      validateNoNewlines name "getvar name"
      return formatSimpleCommand "getvar" [name]
  | connect => return formatSimpleCommand "connect" []

end EslCommand

end FreeswitchEsl
