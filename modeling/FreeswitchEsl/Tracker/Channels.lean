import FreeswitchEsl.ChannelData
import FreeswitchEsl.Lib.Transition

/-!
# The channel tracker

The example client that follows the channels of a switch: a map of headers for every active
channel, filled from events and from the dumps that the client asks for in the background.
A slice in the middle of a character panics; a function that can panic gives nothing then.
-/

namespace FreeswitchEsl

/-- `serde_json::Value::get` with a member name. -/
def JsonValue.get (v : JsonValue) (key : Str) : Option JsonValue :=
  match v with
  | .object members => (members.find? fun m ↦ decide (m.1 = key)).map Prod.snd
  | _ => none

def JsonValue.asStr : JsonValue → Option Str
  | .string text => some text
  | _ => none

def JsonValue.asArray : JsonValue → Option (List JsonValue)
  | .array items => some items
  | _ => none

namespace Tracker

open Text ChannelData

/-! ## Slices -/

/-- `&s[..n.min(s.len())]`, which panics when the end is not between two characters. -/
def sliceTo : Nat → Str → Option Str
  | _, [] => some []
  | n, c :: s =>
      if n = 0 then some []
      else if c.utf8Size ≤ n then (sliceTo (n - c.utf8Size) s).map (c :: ·)
      else none

def shortUuid (uuid : Str) : Option Str := sliceTo 8 uuid

/-- The first `n` bytes end inside a character. -/
def CutsChar (n : Nat) (s : Str) : Prop :=
  ∃ pre c rest, s = pre ++ c :: rest ∧ (utf8Encode pre).length < n ∧
    n < (utf8Encode pre).length + c.utf8Size

theorem length_utf8Encode_cons (c : Char) (s : Str) :
    (utf8Encode (c :: s)).length = c.utf8Size + (utf8Encode s).length := by
  rw [utf8Encode_cons, List.length_append, String.length_utf8EncodeChar]

theorem cutsChar_cons {n : Nat} {c : Char} {s : Str} :
    CutsChar n (c :: s) ↔
      (0 < n ∧ n < c.utf8Size) ∨ (c.utf8Size < n ∧ CutsChar (n - c.utf8Size) s) := by
  constructor
  · rintro ⟨pre, d, rest, heq, hlow, hhigh⟩
    cases pre with
    | nil =>
        obtain ⟨rfl, -⟩ := List.cons.inj heq
        simp only [utf8Encode_nil, List.length_nil] at hlow hhigh
        exact Or.inl ⟨hlow, by omega⟩
    | cons b pre =>
        obtain ⟨rfl, rfl⟩ := List.cons.inj heq
        rw [length_utf8Encode_cons] at hlow hhigh
        exact Or.inr ⟨by omega, pre, d, rest, rfl, by omega, by omega⟩
  · rintro (⟨hlow, hhigh⟩ | ⟨hc, pre, d, rest, rfl, hlow, hhigh⟩)
    · exact ⟨[], c, s, rfl, by simpa using hlow, by simpa using hhigh⟩
    · refine ⟨c :: pre, d, rest, rfl, ?_, ?_⟩ <;> rw [length_utf8Encode_cons] <;> omega

theorem sliceTo_eq_none_iff {s : Str} {n : Nat} : sliceTo n s = none ↔ CutsChar n s := by
  induction s generalizing n with
  | nil =>
      refine iff_of_false (by simp [sliceTo]) ?_
      rintro ⟨pre, c, rest, heq, -, -⟩
      exact List.append_ne_nil_of_right_ne_nil pre (List.cons_ne_nil c rest) heq.symm
  | cons c s ih =>
      have hpos := c.utf8Size_pos
      rw [sliceTo, cutsChar_cons]
      split
      · rename_i hzero
        refine iff_of_false (by simp) ?_
        subst hzero
        rintro (⟨hlow, -⟩ | ⟨hlow, -⟩)
        · exact absurd hlow (Nat.lt_irrefl 0)
        · exact absurd hlow (Nat.not_lt_zero _)
      · split
        · rename_i hne hfits
          rw [Option.map_eq_none_iff, ih]
          constructor
          · intro h
            refine Or.inr ⟨?_, h⟩
            obtain ⟨pre, _, _, -, hlow, -⟩ := h
            have hrest : 0 < n - c.utf8Size := Nat.zero_lt_of_lt hlow
            omega
          · rintro (⟨-, hhigh⟩ | ⟨-, h⟩)
            · exact absurd hhigh (Nat.not_lt.mpr hfits)
            · exact h
        · rename_i hne hcut
          exact iff_of_true rfl (Or.inl ⟨by omega, by omega⟩)

theorem not_cutsChar_of_ascii {s : Str} (h : ∀ c ∈ s, c.utf8Size = 1) (n : Nat) :
    ¬ CutsChar n s := by
  rintro ⟨pre, c, rest, rfl, hlow, hhigh⟩
  have hc : c.utf8Size = 1 := h c (List.mem_append_right _ List.mem_cons_self)
  omega

/-! ## Surroundings -/

/-- The lowest level of the log lines that are written. -/
inductive LogLevel where
  | error | info | debug
  deriving DecidableEq

def LogLevel.writesInfo : LogLevel → Bool
  | error => false
  | info => true
  | debug => true

def LogLevel.writesDebug : LogLevel → Bool
  | error => false
  | info => false
  | debug => true

structure Env where
  crates : Crates
  /-- `percent_decode_str(s).decode_utf8_lossy()`. -/
  percentDecodeLossy : Str → Str
  order : HashOrder
  level : LogLevel

/-- Where the bytes are UTF-8 nothing is replaced. -/
def Env.LossyAgrees (env : Env) : Prop :=
  ∀ s t, env.crates.percentDecodeUtf8 s = some t → env.percentDecodeLossy s = t

/-! ## Channels -/

def DB_TO_EVENT : List (String × String) :=
  [("uuid", "Unique-ID"),
   ("name", "Channel-Name"),
   ("state", "Channel-State"),
   ("callstate", "Channel-Call-State"),
   ("direction", "Call-Direction"),
   ("cid_name", "Caller-Caller-ID-Name"),
   ("cid_num", "Caller-Caller-ID-Number"),
   ("initial_cid_name", "Caller-Orig-Caller-ID-Name"),
   ("initial_cid_num", "Caller-Orig-Caller-ID-Number"),
   ("callee_name", "Caller-Callee-ID-Name"),
   ("callee_num", "Caller-Callee-ID-Number"),
   ("dest", "Caller-Destination-Number"),
   ("call_uuid", "Channel-Call-UUID")]

/-- One entry of the table: a member that is a nonempty string sets its header. -/
def setFromRow (row : JsonValue) (event : EslEvent) (entry : String × String) : EslEvent :=
  match (row.get entry.1.toList).bind JsonValue.asStr with
  | some val => if val = [] then event else event.setHeader entry.2.toList val
  | none => event

def fakeChannelCreate (row : JsonValue) : Option EslEvent :=
  ((row.get "uuid".toList).bind JsonValue.asStr).map fun _ ↦
    DB_TO_EVENT.foldl (setFromRow row) ⟨some .channelCreate, HeaderMap.empty, none⟩

structure TrackedChannel where
  data : HeaderMap
  deriving DecidableEq

namespace TrackedChannel

def new : TrackedChannel := ⟨HeaderMap.empty⟩

def get (ch : TrackedChannel) (key : Str) : Option Str := ch.data.get key

def var (ch : TrackedChannel) (name : Str) : Option Str :=
  ch.data.get ("variable_".toList ++ name)

def channelState (ch : TrackedChannel) : Option ChannelState :=
  (ch.get EslEvent.HEADER_CHANNEL_STATE).bind fun s ↦ (ChannelState.fromStr s).toOption

def callState (ch : TrackedChannel) : Option ChannelData.CallState :=
  (ch.get EslEvent.HEADER_CHANNEL_CALL_STATE).bind fun s ↦
    (ChannelData.CallState.fromStr s).toOption

def callDirection (ch : TrackedChannel) : Option CallDirection :=
  (ch.get EslEvent.HEADER_CALL_DIRECTION).bind fun s ↦ (CallDirection.fromStr s).toOption

/-- Merge the headers of an event, in the order in which they are iterated. -/
def updateFromEvent (env : Env) (ch : TrackedChannel) (event : EslEvent) : TrackedChannel :=
  ⟨(env.order.entries event.headers).foldl (fun data p ↦ data.insert p.1 p.2) ch.data⟩

/-- `line.split_once(": ")`, the value decoded. -/
def dumpLine (env : Env) (line : Str) : Option (Str × Str) :=
  (Pattern.find ": ".toList line).map fun i ↦
    (line.take i, env.percentDecodeLossy (line.drop (i + 2)))

/-- Merge the body of a `uuid_dump`. -/
def updateFromDump (env : Env) (ch : TrackedChannel) (body : Str) : TrackedChannel :=
  ⟨((lines body).filterMap (dumpLine env)).foldl (fun data p ↦ data.insert p.1 p.2) ch.data⟩

end TrackedChannel

/-! ## The tracker -/

structure ChannelTracker where
  channels : Finmap fun _ : Str ↦ TrackedChannel
  /-- From the Job-UUID of a `bgapi` to the channel whose dump it will bring. -/
  pendingDumps : HeaderMap

namespace ChannelTracker

def new : ChannelTracker := ⟨∅, HeaderMap.empty⟩

/-- A log line that shows the UUID, when it is written. -/
def logged (enabled : Bool) (uuid : Str) (t : ChannelTracker) : Option ChannelTracker :=
  if enabled then (shortUuid uuid).map fun _ ↦ t else some t

def updateChannel (env : Env) (t : ChannelTracker) (uuid : Str) (event : EslEvent) :
    ChannelTracker :=
  match t.channels.lookup uuid with
  | some ch => { t with channels := t.channels.insert uuid (ch.updateFromEvent env event) }
  | none => t

def OTHER_LEG : Str := "Other-Leg-Unique-ID".toList

def processEvent (env : Env) (t : ChannelTracker) (event : EslEvent) : Option ChannelTracker :=
  match event.eventType with
  | none => some t
  | some eventType =>
      match event.uniqueId with
      | none => some t
      | some uuid =>
          let log := logged env.level.writesInfo uuid
          match eventType with
          | .channelCreate =>
              let ch := TrackedChannel.new.updateFromEvent env event
              log { t with channels := t.channels.insert uuid ch }
          | .channelDestroy => log { t with channels := t.channels.erase uuid }
          | .channelUnbridge =>
              match t.channels.lookup uuid with
              | some ch =>
                  let ch := ch.updateFromEvent env event
                  log { t with channels := t.channels.insert uuid ⟨ch.data.erase OTHER_LEG⟩ }
              | none => log t
          | _ => log (t.updateChannel env uuid event)

def applyDump (env : Env) (t : ChannelTracker) (uuid body : Str) : Option ChannelTracker :=
  match t.channels.lookup uuid with
  | some ch =>
      logged env.level.writesDebug uuid
        { t with channels := t.channels.insert uuid (ch.updateFromDump env body) }
  | none => some t

def handleBackgroundJob (env : Env) (t : ChannelTracker) (event : EslEvent) :
    Option ChannelTracker :=
  match event.jobUuid with
  | none => some t
  | some jobUuid =>
      match t.pendingDumps.get jobUuid with
      | none => some t
      | some channelUuid =>
          let t := { t with pendingDumps := t.pendingDumps.erase jobUuid }
          match event.body with
          | some body => t.applyDump env channelUuid body
          | none => some t

/-- A row of the table of channels, with the UUIDs found so far. -/
def bootstrapRow (env : Env) (p : ChannelTracker × List Str) (row : JsonValue) :
    Option (ChannelTracker × List Str) :=
  match fakeChannelCreate row with
  | some event => (p.1.processEvent env event).map fun t ↦ (t, p.2 ++ event.uniqueId.toList)
  | none => some p

def bootstrap (env : Env) (t : ChannelTracker) (body : Str) :
    Option (ChannelTracker × List Str) :=
  match env.crates.jsonFromStr body with
  | .error _ => some (t, [])
  | .ok json =>
      match (json.get "rows".toList).bind JsonValue.asArray with
      | none => some (t, [])
      | some rows => Transition.run (bootstrapRow env) (t, []) rows

/-- What the reply to the `bgapi uuid_dump` changes. -/
def requestDump (env : Env) (t : ChannelTracker) (uuid : Str) (reply : EslResult EslResponse) :
    Option ChannelTracker :=
  match reply with
  | .ok response =>
      match response.headers.get "Job-UUID".toList with
      | some jobUuid => some { t with pendingDumps := t.pendingDumps.insert jobUuid uuid }
      | none => some t
  | .error _ => logged env.level.writesDebug uuid t

end ChannelTracker

end Tracker

end FreeswitchEsl
