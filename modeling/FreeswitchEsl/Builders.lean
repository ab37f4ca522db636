import FreeswitchEsl.CommandReading

/-!
# Command builders

The builders of API commands for channels and conferences, and those of dialplan
applications.  Their fields stand one behind the other with blanks in between, so they
can be told apart as long as only the last one has a blank.  The readings below follow
the syntax that is documented with the builders, not the code of a server.
-/

namespace FreeswitchEsl

open Text

/-! ## Positional fields -/

/-- `str::splitn` at blanks. -/
def splitn : Nat → Str → List Str
  | 0, _ => []
  | 1, s => [s]
  | n + 2, s =>
      match splitOnce ' ' s with
      | some (word, rest) => word :: splitn (n + 1) rest
      | none => [s]

/-- At most `n` fields, each a word unless it is the `n`th and takes all that is left. -/
def Positional : Nat → List Str → Prop
  | 0, _ => False
  | 1, fields => fields.length = 1
  | _ + 2, [] => False
  | _ + 2, [field] => ' ' ∉ field
  | n + 2, field :: fields => ' ' ∉ field ∧ Positional (n + 1) fields

theorem Positional.ne_nil {n : Nat} {fields : List Str} (h : Positional n fields) :
    fields ≠ [] := by
  rintro rfl
  match n, h with
  | 1, h => cases h

theorem splitn_intercalate {n : Nat} {fields : List Str} (h : Positional n fields) :
    splitn n ([' '].intercalate fields) = fields := by
  induction n generalizing fields with
  | zero => exact h.elim
  | succ n ih =>
      cases n with
      | zero =>
          obtain ⟨field, rfl⟩ := List.length_eq_one_iff.mp h
          rw [List.intercalate_singleton]
          rfl
      | succ n =>
          match fields, h with
          | [field], h =>
              rw [List.intercalate_singleton, splitn, splitOnce_eq_none_iff.mpr h]
          | field :: next :: fields, h =>
              obtain ⟨hword, hrest⟩ := h
              rw [intercalate_cons hrest.ne_nil, splitn, splitOnce_append hword]
              exact congrArg (field :: ·) (ih hrest)

/-- A command with its fields, as the `write!` calls put them together. -/
def commandText (name : String) (fields : List Str) : Str :=
  [' '].intercalate (name.toList :: fields)

/-! ## Channels -/

structure UuidAnswer where
  uuid : Str

def UuidAnswer.display (c : UuidAnswer) : Str := commandText "uuid_answer" [c.uuid]

structure UuidBridge where
  uuid : Str
  other : Str

def UuidBridge.display (c : UuidBridge) : Str := commandText "uuid_bridge" [c.uuid, c.other]

structure UuidDeflect where
  uuid : Str
  uri : Str

def UuidDeflect.display (c : UuidDeflect) : Str := commandText "uuid_deflect" [c.uuid, c.uri]

structure UuidHold where
  uuid : Str
  off : Bool

def UuidHold.display (c : UuidHold) : Str :=
  if c.off then commandText "uuid_hold" ["off".toList, c.uuid]
  else commandText "uuid_hold" [c.uuid]

structure UuidKill where
  uuid : Str
  cause : Option Str

def UuidKill.display (c : UuidKill) : Str := commandText "uuid_kill" (c.uuid :: c.cause.toList)

structure UuidGetVar where
  uuid : Str
  key : Str

def UuidGetVar.display (c : UuidGetVar) : Str := commandText "uuid_getvar" [c.uuid, c.key]

structure UuidSetVar where
  uuid : Str
  key : Str
  value : Str

def UuidSetVar.display (c : UuidSetVar) : Str :=
  commandText "uuid_setvar" [c.uuid, c.key, c.value]

structure UuidTransfer where
  uuid : Str
  destination : Str
  dialplan : Option Str

def UuidTransfer.display (c : UuidTransfer) : Str :=
  commandText "uuid_transfer" (c.uuid :: c.destination :: c.dialplan.toList)

structure UuidSendDtmf where
  uuid : Str
  dtmf : Str

def UuidSendDtmf.display (c : UuidSendDtmf) : Str :=
  commandText "uuid_send_dtmf" [c.uuid, c.dtmf]

/-! ## Conferences -/

inductive MuteAction where
  | mute
  | unmute

def MuteAction.display : MuteAction → Str
  | mute => "mute".toList
  | unmute => "unmute".toList

structure ConferenceMute where
  name : Str
  action : MuteAction
  memberId : Str

def ConferenceMute.display (c : ConferenceMute) : Str :=
  commandText "conference" [c.name, c.action.display, c.memberId]

inductive HoldAction where
  | hold
  | unhold

def HoldAction.display : HoldAction → Str
  | hold => "hold".toList
  | unhold => "unhold".toList

structure ConferenceHold where
  name : Str
  action : HoldAction
  member : Str
  stream : Option Str

def ConferenceHold.display (c : ConferenceHold) : Str :=
  commandText "conference" (c.name :: c.action.display :: c.member :: c.stream.toList)

structure ConferenceDtmf where
  name : Str
  member : Str
  dtmf : Str

def ConferenceDtmf.display (c : ConferenceDtmf) : Str :=
  commandText "conference" [c.name, "dtmf".toList, c.member, c.dtmf]

/-! ## Reading API commands -/

/-- The builders of one API command, whichever it is. -/
inductive ApiBuilder where
  | answer (c : UuidAnswer)
  | bridge (c : UuidBridge)
  | deflect (c : UuidDeflect)
  | hold (c : UuidHold)
  | kill (c : UuidKill)
  | getVar (c : UuidGetVar)
  | setVar (c : UuidSetVar)
  | transfer (c : UuidTransfer)
  | sendDtmf (c : UuidSendDtmf)
  | conferenceMute (c : ConferenceMute)
  | conferenceHold (c : ConferenceHold)
  | conferenceDtmf (c : ConferenceDtmf)

/-- The name of the API command and the number of fields it takes at most. -/
inductive ApiName where
  | answer
  | bridge
  | deflect
  | hold
  | kill
  | getVar
  | setVar
  | transfer
  | sendDtmf
  | conference

namespace ApiName

def word : ApiName → String
  | answer => "uuid_answer"
  | bridge => "uuid_bridge"
  | deflect => "uuid_deflect"
  | hold => "uuid_hold"
  | kill => "uuid_kill"
  | getVar => "uuid_getvar"
  | setVar => "uuid_setvar"
  | transfer => "uuid_transfer"
  | sendDtmf => "uuid_send_dtmf"
  | conference => "conference"

def arity : ApiName → Nat
  | answer => 1
  | bridge | deflect | hold | kill | getVar | sendDtmf => 2
  | setVar | transfer => 3
  | conference => 4

def all : List ApiName :=
  [answer, bridge, deflect, hold, kill, getVar, setVar, transfer, sendDtmf, conference]

def ofWord (word : Str) : Option ApiName := all.find? fun n ↦ decide (n.word.toList = word)

theorem ofWord_word (n : ApiName) : ofWord n.word.toList = some n := by
  cases n <;> rfl

theorem space_notMem_word (n : ApiName) : ' ' ∉ n.word.toList := by
  cases n <;> decide

end ApiName

namespace ApiBuilder

def name : ApiBuilder → ApiName
  | answer _ => .answer
  | bridge _ => .bridge
  | deflect _ => .deflect
  | hold _ => .hold
  | kill _ => .kill
  | getVar _ => .getVar
  | setVar _ => .setVar
  | transfer _ => .transfer
  | sendDtmf _ => .sendDtmf
  | conferenceMute _ | conferenceHold _ | conferenceDtmf _ => .conference

def fields : ApiBuilder → List Str
  | answer c => [c.uuid]
  | bridge c => [c.uuid, c.other]
  | deflect c => [c.uuid, c.uri]
  | hold c => if c.off then ["off".toList, c.uuid] else [c.uuid]
  | kill c => c.uuid :: c.cause.toList
  | getVar c => [c.uuid, c.key]
  | setVar c => [c.uuid, c.key, c.value]
  | transfer c => c.uuid :: c.destination :: c.dialplan.toList
  | sendDtmf c => [c.uuid, c.dtmf]
  | conferenceMute c => [c.name, c.action.display, c.memberId]
  | conferenceHold c => c.name :: c.action.display :: c.member :: c.stream.toList
  | conferenceDtmf c => [c.name, "dtmf".toList, c.member, c.dtmf]

def display : ApiBuilder → Str
  | answer c => c.display
  | bridge c => c.display
  | deflect c => c.display
  | hold c => c.display
  | kill c => c.display
  | getVar c => c.display
  | setVar c => c.display
  | transfer c => c.display
  | sendDtmf c => c.display
  | conferenceMute c => c.display
  | conferenceHold c => c.display
  | conferenceDtmf c => c.display

def readConference (room action : Str) (fields : List Str) : Option ApiBuilder :=
  if action = "dtmf".toList then
    match fields with
    | [member, dtmf] => some (conferenceDtmf ⟨room, member, dtmf⟩)
    | _ => none
  else if action = "mute".toList then
    fields.head?.map fun member ↦ conferenceMute ⟨room, .mute, member⟩
  else if action = "unmute".toList then
    fields.head?.map fun member ↦ conferenceMute ⟨room, .unmute, member⟩
  else if action = "hold".toList then
    fields.head?.map fun member ↦ conferenceHold ⟨room, .hold, member, fields[1]?⟩
  else if action = "unhold".toList then
    fields.head?.map fun member ↦ conferenceHold ⟨room, .unhold, member, fields[1]?⟩
  else none

def ofFields : ApiName → List Str → Option ApiBuilder
  | .answer, [uuid] => some (answer ⟨uuid⟩)
  | .bridge, [uuid, other] => some (bridge ⟨uuid, other⟩)
  | .deflect, [uuid, uri] => some (deflect ⟨uuid, uri⟩)
  | .hold, [uuid] => some (hold ⟨uuid, false⟩)
  | .hold, [word, uuid] => if word = "off".toList then some (hold ⟨uuid, true⟩) else none
  | .kill, uuid :: rest => some (kill ⟨uuid, rest.head?⟩)
  | .getVar, [uuid, key] => some (getVar ⟨uuid, key⟩)
  | .setVar, [uuid, key, value] => some (setVar ⟨uuid, key, value⟩)
  | .transfer, uuid :: destination :: rest => some (transfer ⟨uuid, destination, rest.head?⟩)
  | .sendDtmf, [uuid, dtmf] => some (sendDtmf ⟨uuid, dtmf⟩)
  | .conference, room :: action :: rest => readConference room action rest
  | _, _ => none

/-- The documented syntax of the API commands, read back into a builder. -/
def read (text : Str) : Option ApiBuilder :=
  (splitOnce ' ' text).bind fun p ↦
    (ApiName.ofWord p.1).bind fun name ↦ ofFields name (splitn name.arity p.2)

theorem display_eq (b : ApiBuilder) : b.display = commandText b.name.word b.fields := by
  cases b with
  | hold c =>
      obtain ⟨uuid, off⟩ := c
      cases off <;> rfl
  | _ => rfl

theorem ofFields_fields (b : ApiBuilder) : ofFields b.name b.fields = some b := by
  cases b with
  | hold c =>
      obtain ⟨uuid, off⟩ := c
      cases off <;> rfl
  | kill c =>
      obtain ⟨uuid, cause⟩ := c
      cases cause <;> rfl
  | transfer c =>
      obtain ⟨uuid, destination, dialplan⟩ := c
      cases dialplan <;> rfl
  | conferenceMute c =>
      obtain ⟨room, action, memberId⟩ := c
      cases action <;> rfl
  | conferenceHold c =>
      obtain ⟨room, action, member, stream⟩ := c
      cases action <;> cases stream <;> rfl
  | answer _ | bridge _ | deflect _ | getVar _ | setVar _ | sendDtmf _ | conferenceDtmf _ => rfl

/-- Only the last field may have a blank, and only where no further field could follow. -/
def Worded (b : ApiBuilder) : Prop := Positional b.name.arity b.fields

theorem read_display {b : ApiBuilder} (h : b.Worded) : read b.display = some b := by
  rw [display_eq, commandText, intercalate_cons h.ne_nil, read,
    splitOnce_append b.name.space_notMem_word, Option.bind_some, ApiName.ofWord_word,
    Option.bind_some, splitn_intercalate h, ofFields_fields]

theorem hasLineBreak_display_iff (b : ApiBuilder) :
    HasLineBreak b.display ↔ ∃ field ∈ b.fields, HasLineBreak field := by
  have hmem : ∀ c, c ∉ b.name.word.toList → c ≠ ' ' →
      (c ∈ b.display ↔ ∃ field ∈ b.fields, c ∈ field) := by
    intro c hword hspace
    rw [display_eq, commandText]
    constructor
    · intro h
      obtain ⟨field, hfield, hc⟩ := (of_mem_intercalate h).resolve_left hspace
      rcases List.mem_cons.mp hfield with rfl | hfield
      · exact absurd hc hword
      · exact ⟨field, hfield, hc⟩
    · rintro ⟨field, hfield, hc⟩
      exact mem_intercalate (List.mem_cons_of_mem _ hfield) hc
  have hclean : '\n' ∉ b.name.word.toList ∧ '\r' ∉ b.name.word.toList := by
    cases b.name <;> decide
  unfold HasLineBreak
  rw [hmem '\n' hclean.1 (by decide), hmem '\r' hclean.2 (by decide)]
  simp only [← exists_or, ← and_or_left]

/-- An API command from a builder is refused exactly for a line break in a field.  What
is sent is read as one command, with the fields that the builder had. -/
theorem apiBuilder_understood (order : HashOrder) {b : ApiBuilder} (h : b.Worded)
    {send : Str → EslCommand} (hsend : send = .api ∨ send = .bgApi) :
    ((∃ e, (send b.display).toWireFormat order = .error e) ↔
      ∃ field ∈ b.fields, HasLineBreak field) ∧
    ∀ w, (send b.display).toWireFormat order = .ok w →
      readCommands (utf8Encode w) = [some (send b.display)] ∧ read b.display = some b := by
  have hsent : (∀ s, (send b.display).HasText s ↔ s = b.display) ∧
      (send b.display).Legible ∧ (send b.display).received = send b.display := by
    rcases hsend with rfl | rfl <;> exact ⟨fun _ ↦ Iff.rfl, trivial, rfl⟩
  obtain ⟨htext, hlegible, hreceived⟩ := hsent
  constructor
  · rw [not_isOk_iff, EslCommand.isOk_toWireFormat_iff, ← hasLineBreak_display_iff]
    simp [htext]
  · intro w hw
    have hread := readCommands_flatten (List.forall_mem_singleton.mpr hlegible)
      (.cons ⟨order, w, hw, rfl⟩ .nil) []
    rw [List.flatten_singleton, List.append_nil, readCommands_nil, List.append_nil,
      List.map_singleton, hreceived] at hread
    exact ⟨hread, read_display h⟩

theorem apiBuilder_understood_transfer :
    ∃ w, (EslCommand.bgApi (transfer ⟨"7".toList, "1000".toList, none⟩).display).toWireFormat
        .byName = .ok w ∧
      readCommands (utf8Encode w) = [some (.bgApi "uuid_transfer 7 1000".toList)] := by
  have hworded : (transfer ⟨"7".toList, "1000".toList, none⟩).Worded := by
    refine ⟨by decide, ?_⟩
    change ' ' ∉ "1000".toList
    decide
  obtain ⟨-, hread⟩ := apiBuilder_understood .byName hworded (Or.inr rfl)
  exact ⟨"bgapi uuid_transfer 7 1000\n\n".toList, by decide, (hread _ (by decide)).1⟩

end ApiBuilder

/-! ## Dialplan applications -/

namespace AppCommand

def answer : EslCommand := .execute "answer".toList none none

def hangup (cause : Option Str) : EslCommand := .execute "hangup".toList cause none

def playback (file : Str) : EslCommand := .execute "playback".toList (some file) none

def bridge (destination : Str) : EslCommand := .execute "bridge".toList (some destination) none

def setVar (name value : Str) : EslCommand :=
  .execute "set".toList (some (name ++ '=' :: value)) none

def park : EslCommand := .execute "park".toList none none

def transfer (destination : Str) (dialplan context : Option Str) : EslCommand :=
  let args := destination
  let args := match dialplan with
    | some dp => args ++ ' ' :: dp
    | none => args
  let args := match context with
    | some ctx => args ++ ' ' :: ctx
    | none => args
  .execute "transfer".toList (some args) none

end AppCommand

/-- An application with its arguments. -/
inductive App where
  | answer
  | hangup (cause : Option Str)
  | playback (file : Str)
  | bridge (destination : Str)
  | setVar (name value : Str)
  | park
  | transfer (destination : Str) (dialplan context : Option Str)

namespace App

def command : App → EslCommand
  | answer => AppCommand.answer
  | hangup cause => AppCommand.hangup cause
  | playback file => AppCommand.playback file
  | bridge destination => AppCommand.bridge destination
  | setVar name value => AppCommand.setVar name value
  | park => AppCommand.park
  | transfer destination dialplan context => AppCommand.transfer destination dialplan context

def readTransfer (args : Str) : Option App :=
  match splitn 3 args with
  | destination :: rest => some (transfer destination rest[0]? rest[1]?)
  | [] => none

/-- The documented syntax of the argument of each application. -/
def ofExecute (name : Str) (args : Option Str) : Option App :=
  if name = "answer".toList then some answer
  else if name = "hangup".toList then some (hangup args)
  else if name = "playback".toList then args.map playback
  else if name = "bridge".toList then args.map bridge
  else if name = "set".toList then (args.bind (splitOnce '=')).map fun p ↦ setVar p.1 p.2
  else if name = "park".toList then some park
  else if name = "transfer".toList then args.bind readTransfer
  else none

/-- An execute message, read back into an application by the documented syntax. -/
def read : EslCommand → Option App
  | .sendMsg none event =>
      if event.header "call-command".toList = some "execute".toList then
        (event.header "execute-app-name".toList).bind fun name ↦
          ofExecute name (event.header "execute-app-arg".toList)
      else none
  | _ => none

/-- The name of a variable has no equals sign, and a destination and a dialplan have no
blank. -/
def Worded : App → Prop
  | setVar name _ => '=' ∉ name
  | transfer destination dialplan _ =>
      ' ' ∉ destination ∧ ∀ dp, dialplan = some dp → ' ' ∉ dp
  | _ => True

/-- A context has its place behind a dialplan only. -/
def Placed : App → Prop
  | transfer _ none (some _) => False
  | _ => True

theorem header_executeEvent_of_some (name : Str) (args : Option Str) :
    (EslCommand.executeEvent name args).header "call-command".toList =
        some "execute".toList ∧
      (EslCommand.executeEvent name args).header "execute-app-name".toList = some name ∧
        (EslCommand.executeEvent name args).header "execute-app-arg".toList = args := by
  unfold EslCommand.executeEvent
  cases args with
  | none =>
      refine ⟨?_, EslEvent.header_setHeader_self _ _ _, ?_⟩
      · rw [EslEvent.header_setHeader_of_ne _ _ (by decide), EslEvent.header_setHeader_self]
      · rw [EslEvent.header_setHeader_of_ne _ _ (by decide),
          EslEvent.header_setHeader_of_ne _ _ (by decide)]
        rfl
  | some a =>
      refine ⟨?_, ?_, EslEvent.header_setHeader_self _ _ _⟩
      · rw [EslEvent.header_setHeader_of_ne _ _ (by decide),
          EslEvent.header_setHeader_of_ne _ _ (by decide), EslEvent.header_setHeader_self]
      · rw [EslEvent.header_setHeader_of_ne _ _ (by decide), EslEvent.header_setHeader_self]

theorem read_execute (name : Str) (args : Option Str) :
    read (EslCommand.execute name args none).received = ofExecute name args := by
  obtain ⟨hcall, hname, hargs⟩ := header_executeEvent_of_some name args
  rw [EslCommand.received, read, if_pos hcall, hname, Option.bind_some, hargs]

theorem readTransfer_intercalate {destination : Str} {rest : List Str}
    (h : Positional 3 (destination :: rest)) :
    readTransfer ([' '].intercalate (destination :: rest)) =
      some (transfer destination rest[0]? rest[1]?) := by
  rw [readTransfer, splitn_intercalate h]

theorem read_transfer_of_placed {destination : Str} {dialplan context : Option Str}
    (h : (transfer destination dialplan context).Worded)
    (hplaced : (transfer destination dialplan context).Placed) :
    read (AppCommand.transfer destination dialplan context).received =
      some (transfer destination dialplan context) := by
  obtain ⟨hdestination, hdialplan⟩ := h
  unfold AppCommand.transfer
  rw [read_execute]
  change readTransfer _ = _
  cases dialplan with
  | none =>
      cases context with
      | none => simpa using @readTransfer_intercalate destination [] hdestination
      | some ctx => exact hplaced.elim
  | some dp =>
      have hword := hdialplan dp rfl
      cases context with
      | none => simpa using @readTransfer_intercalate destination [dp] ⟨hdestination, hword⟩
      | some ctx =>
          simpa using @readTransfer_intercalate destination [dp, ctx] ⟨hdestination, hword, rfl⟩

/-- Without a dialplan, the context or its first word takes its place. -/
theorem dialplan_of_read_transfer {destination ctx : Str} (h : ' ' ∉ destination) :
    ∃ dp context, read (AppCommand.transfer destination none (some ctx)).received =
      some (transfer destination (some dp) context) := by
  unfold AppCommand.transfer
  rw [read_execute]
  change ∃ dp context, readTransfer (destination ++ ' ' :: ctx) = _
  have hsplit : splitn 3 (destination ++ ' ' :: ctx) = destination :: splitn 2 ctx := by
    rw [splitn, splitOnce_append h]
  rw [readTransfer, hsplit]
  cases hctx : splitOnce ' ' ctx with
  | none =>
      have hone : splitn 2 ctx = [ctx] := by rw [splitn, hctx]
      rw [hone]
      exact ⟨ctx, none, rfl⟩
  | some p =>
      have htwo : splitn 2 ctx = [p.1, p.2] := by
        rw [splitn, hctx]
        rfl
      rw [htwo]
      exact ⟨p.1, some p.2, rfl⟩

/-- By the documented syntax a message stands for the application that was asked for, unless
it is a transfer with a context and no dialplan. -/
theorem app_understood_iff {a : App} (h : a.Worded) :
    read a.command.received = some a ↔ a.Placed := by
  cases a with
  | answer | park | hangup _ | playback _ | bridge _ =>
      refine ⟨fun _ ↦ trivial, fun _ ↦ ?_⟩
      exact read_execute _ _
  | setVar name value =>
      refine ⟨fun _ ↦ trivial, fun _ ↦ ?_⟩
      change read (EslCommand.execute _ (some (name ++ '=' :: value)) none).received = _
      rw [read_execute]
      change (splitOnce '=' (name ++ '=' :: value)).map _ = _
      rw [splitOnce_append h]
      rfl
  | transfer destination dialplan context =>
      refine ⟨fun hread ↦ ?_, read_transfer_of_placed h⟩
      cases dialplan with
      | some dp => exact True.intro
      | none =>
          cases context with
          | none => exact True.intro
          | some ctx =>
              obtain ⟨dp, context, hother⟩ := dialplan_of_read_transfer h.1
              rw [command, hother] at hread
              cases hread

theorem app_understood_iff_context :
    read (transfer "1000".toList none (some "public".toList)).command.received ≠
      some (transfer "1000".toList none (some "public".toList)) := by
  have hworded : (transfer "1000".toList none (some "public".toList)).Worded := by
    exact ⟨by decide, fun dp h ↦ by cases h⟩
  exact fun h ↦ (app_understood_iff hworded).mp h

end App

end FreeswitchEsl
