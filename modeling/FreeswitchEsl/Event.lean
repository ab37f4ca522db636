import FreeswitchEsl.Text
import Mathlib.Data.Char
import Mathlib.Data.Finmap
import Mathlib.Data.List.Lex
import Mathlib.Data.List.Sort
import Mathlib.Data.Prod.Lex

/-!
# Events

Header maps, event types, event formats and the event record.
-/

namespace FreeswitchEsl

open Text

/-! ## Header maps -/

/-- `HashMap<String, String>`: a finite map, without an order. -/
abbrev HeaderMap := Finmap fun _ : Str ↦ Str

def HeaderMap.empty : HeaderMap := ∅

def HeaderMap.get (m : HeaderMap) (name : Str) : Option Str := m.lookup name

@[simp] theorem HeaderMap.get_empty (name : Str) : HeaderMap.empty.get name = none := rfl

@[simp] theorem HeaderMap.get_insert_self (m : HeaderMap) (name value : Str) :
    HeaderMap.get (m.insert name value) name = some value := Finmap.lookup_insert m

theorem HeaderMap.get_insert_of_ne (m : HeaderMap) {name other : Str} (value : Str)
    (h : other ≠ name) : HeaderMap.get (m.insert name value) other = m.get other :=
  Finmap.lookup_insert_of_ne m h

theorem HeaderMap.ext_get {m m' : HeaderMap} (h : ∀ name, m.get name = m'.get name) :
    m = m' := Finmap.ext_lookup h

def HeaderMap.ofList (l : List (Str × Str)) : HeaderMap :=
  l.foldl (fun m p ↦ m.insert p.1 p.2) HeaderMap.empty

theorem HeaderMap.get_foldl_insert_of_notMem {l : List (Str × Str)} {name : Str}
    (h : name ∉ l.map Prod.fst) (m : HeaderMap) :
    HeaderMap.get (l.foldl (fun m p ↦ m.insert p.1 p.2) m) name = m.get name := by
  induction l generalizing m with
  | nil => rfl
  | cons p l ih =>
      obtain ⟨hp, hl⟩ : name ≠ p.1 ∧ name ∉ l.map Prod.fst := by simpa using h
      rw [List.foldl_cons, ih hl, HeaderMap.get_insert_of_ne m p.2 hp]

theorem HeaderMap.get_ofList_of_notMem {l : List (Str × Str)} {name : Str}
    (h : name ∉ l.map Prod.fst) : (HeaderMap.ofList l).get name = none :=
  HeaderMap.get_foldl_insert_of_notMem h HeaderMap.empty

theorem HeaderMap.get_ofList_of_mem {l : List (Str × Str)} {name value : Str}
    (hl : (l.map Prod.fst).Nodup) (h : (name, value) ∈ l) :
    (HeaderMap.ofList l).get name = some value := by
  obtain ⟨pre, post, rfl⟩ := List.append_of_mem h
  have hpost : name ∉ post.map Prod.fst := by
    rw [List.map_append, List.map_cons, List.nodup_append] at hl
    exact (List.nodup_cons.mp hl.2.1).1
  rw [HeaderMap.ofList, List.foldl_append, List.foldl_cons,
    HeaderMap.get_foldl_insert_of_notMem hpost, HeaderMap.get_insert_self]

/-- A later entry replaces an earlier one of its name. -/
theorem HeaderMap.get_foldl_insert (l : List (Str × Str)) (m : HeaderMap) (name : Str) :
    HeaderMap.get (l.foldl (fun m p ↦ m.insert p.1 p.2) m) name =
      ((HeaderMap.ofList l).get name).or (m.get name) := by
  induction l generalizing m with
  | nil => rfl
  | cons p l ih =>
      rw [HeaderMap.ofList, List.foldl_cons, List.foldl_cons, ih, ih, Option.or_assoc]
      by_cases hname : name = p.1
      · rw [hname, HeaderMap.get_insert_self, HeaderMap.get_insert_self, Option.some_or]
      · rw [HeaderMap.get_insert_of_ne _ _ hname, HeaderMap.get_insert_of_ne _ _ hname,
          HeaderMap.get_empty, Option.none_or]

theorem HeaderMap.get_ofList_cons (p : Str × Str) (l : List (Str × Str)) (name : Str) :
    (HeaderMap.ofList (p :: l)).get name =
      ((HeaderMap.ofList l).get name).or (if name = p.1 then some p.2 else none) := by
  rw [HeaderMap.ofList, List.foldl_cons, HeaderMap.get_foldl_insert]
  split
  · rename_i hname
    rw [hname, HeaderMap.get_insert_self]
  · rename_i hname
    rw [HeaderMap.get_insert_of_ne _ _ hname, HeaderMap.get_empty]

theorem HeaderMap.get_ofList_eq_none_iff {l : List (Str × Str)} {name : Str} :
    (HeaderMap.ofList l).get name = none ↔ name ∉ l.map Prod.fst := by
  induction l with
  | nil => simp [HeaderMap.ofList]
  | cons p l ih => simp [HeaderMap.get_ofList_cons, ih, and_comm]

theorem HeaderMap.ofList_perm {l l' : List (Str × Str)} (hl : (l.map Prod.fst).Nodup)
    (h : l'.Perm l) : HeaderMap.ofList l' = HeaderMap.ofList l := by
  have hl' : (l'.map Prod.fst).Nodup := (h.map Prod.fst).nodup_iff.mpr hl
  apply HeaderMap.ext_get
  intro name
  by_cases hmem : name ∈ l.map Prod.fst
  · obtain ⟨⟨key, value⟩, hp, rfl⟩ := List.mem_map.mp hmem
    rw [HeaderMap.get_ofList_of_mem hl hp, HeaderMap.get_ofList_of_mem hl' (h.mem_iff.mpr hp)]
  · have hmem' : name ∉ l'.map Prod.fst := fun h' ↦ hmem ((h.map Prod.fst).mem_iff.mp h')
    rw [HeaderMap.get_ofList_of_notMem hmem, HeaderMap.get_ofList_of_notMem hmem']

/-- An order in which the entries of every map are iterated.  The order of a
`HashMap` is unspecified, so results about iterating code hold for all of them. -/
structure HashOrder where
  entries : HeaderMap → List (Str × Str)
  entries_eq : ∀ m : HeaderMap,
    ((entries m).map fun p ↦ (⟨p.1, p.2⟩ : Σ _ : Str, Str) : Multiset _) = m.entries

theorem HashOrder.mem_entries_iff (o : HashOrder) {m : HeaderMap} {name value : Str} :
    (name, value) ∈ o.entries m ↔ m.get name = some value := by
  rw [HeaderMap.get, Finmap.lookup_eq_some_iff, ← o.entries_eq m]
  simp

theorem HashOrder.nodup_entries (o : HashOrder) (m : HeaderMap) :
    ((o.entries m).map Prod.fst).Nodup := by
  have hnodup : (m.entries.keys).Nodup := Multiset.nodup_keys.mpr m.nodupKeys
  rw [← o.entries_eq m] at hnodup
  simpa [Multiset.keys, Function.comp_def] using hnodup

/-- Storing the entries of a map in any order gives the map back. -/
theorem HashOrder.ofList_entries (o : HashOrder) (m : HeaderMap) :
    HeaderMap.ofList (o.entries m) = m := by
  apply HeaderMap.ext_get
  intro name
  cases hget : m.get name with
  | some value =>
      exact HeaderMap.get_ofList_of_mem (o.nodup_entries m) (o.mem_entries_iff.mpr hget)
  | none =>
      apply HeaderMap.get_ofList_of_notMem
      intro hmem
      obtain ⟨⟨key, value⟩, hp, rfl⟩ := List.mem_map.mp hmem
      rw [o.mem_entries_iff.mp hp] at hget
      cases hget

def sortEntries (m : Multiset (Str ×ₗ Str)) : List (Str ×ₗ Str) :=
  Quot.liftOn m (List.insertionSort (· ≤ ·)) fun l l' h ↦
    ((List.perm_insertionSort _ l).trans
      (h.trans (List.perm_insertionSort _ l').symm)).eq_of_pairwise'
        (List.pairwise_insertionSort _ l) (List.pairwise_insertionSort _ l')

theorem coe_sortEntries (m : Multiset (Str ×ₗ Str)) : (sortEntries m : Multiset _) = m := by
  induction m using Quot.inductionOn with
  | h l => exact Quot.sound (List.perm_insertionSort _ l)

def HashOrder.byName : HashOrder where
  entries m := (sortEntries (m.entries.map fun p ↦ toLex (p.1, p.2))).map ofLex
  entries_eq m := by
    rw [List.map_map, ← Multiset.map_coe, coe_sortEntries, Multiset.map_map]
    exact Multiset.map_id _

/-! ## Event types -/

/-- The event types, in the order of `EVENT_NAMES[]`. -/
inductive EslEventType where
  | custom | clone | channelCreate | channelDestroy | channelState | channelCallstate
  | channelAnswer | channelHangup | channelHangupComplete | channelExecute
  | channelExecuteComplete | channelHold | channelUnhold | channelBridge | channelUnbridge
  | channelProgress | channelProgressMedia | channelOutgoing | channelPark | channelUnpark
  | channelApplication | channelOriginate | channelUuid | api | log | inboundChan
  | outboundChan | startup | shutdown | publish | unpublish | talk | notalk | sessionCrash
  | moduleLoad | moduleUnload | dtmf | message | presenceIn | notifyIn | presenceOut
  | presenceProbe | messageWaiting | messageQuery | roster | codec | backgroundJob
  | detectedSpeech | detectedTone | privateCommand | heartbeat | trap | addSchedule
  | delSchedule | exeSchedule | reSchedule | reloadXml | notify | phoneFeature
  | phoneFeatureSubscribe | sendMessage | recvMessage | requestParams | channelData | general
  | command | sessionHeartbeat | clientDisconnected | serverDisconnected | sendInfo | recvInfo
  | recvRtcpMessage | sendRtcpMessage | callSecure | nat | recordStart | recordStop
  | playbackStart | playbackStop | callUpdate | failure | socketData | mediaBugStart
  | mediaBugStop | conferenceDataQuery | conferenceData | callSetupReq | callSetupResult
  | callDetail | deviceState | text | shutdownRequested | all | startRecording
  deriving DecidableEq

namespace EslEventType

/-- The wire name of an event type, as `Display` writes it. -/
def wireName : EslEventType → String
  | .custom => "CUSTOM"
  | .clone => "CLONE"
  | .channelCreate => "CHANNEL_CREATE"
  | .channelDestroy => "CHANNEL_DESTROY"
  | .channelState => "CHANNEL_STATE"
  | .channelCallstate => "CHANNEL_CALLSTATE"
  | .channelAnswer => "CHANNEL_ANSWER"
  | .channelHangup => "CHANNEL_HANGUP"
  | .channelHangupComplete => "CHANNEL_HANGUP_COMPLETE"
  | .channelExecute => "CHANNEL_EXECUTE"
  | .channelExecuteComplete => "CHANNEL_EXECUTE_COMPLETE"
  | .channelHold => "CHANNEL_HOLD"
  | .channelUnhold => "CHANNEL_UNHOLD"
  | .channelBridge => "CHANNEL_BRIDGE"
  | .channelUnbridge => "CHANNEL_UNBRIDGE"
  | .channelProgress => "CHANNEL_PROGRESS"
  | .channelProgressMedia => "CHANNEL_PROGRESS_MEDIA"
  | .channelOutgoing => "CHANNEL_OUTGOING"
  | .channelPark => "CHANNEL_PARK"
  | .channelUnpark => "CHANNEL_UNPARK"
  | .channelApplication => "CHANNEL_APPLICATION"
  | .channelOriginate => "CHANNEL_ORIGINATE"
  | .channelUuid => "CHANNEL_UUID"
  | .api => "API"
  | .log => "LOG"
  | .inboundChan => "INBOUND_CHAN"
  | .outboundChan => "OUTBOUND_CHAN"
  | .startup => "STARTUP"
  | .shutdown => "SHUTDOWN"
  | .publish => "PUBLISH"
  | .unpublish => "UNPUBLISH"
  | .talk => "TALK"
  | .notalk => "NOTALK"
  | .sessionCrash => "SESSION_CRASH"
  | .moduleLoad => "MODULE_LOAD"
  | .moduleUnload => "MODULE_UNLOAD"
  | .dtmf => "DTMF"
  | .message => "MESSAGE"
  | .presenceIn => "PRESENCE_IN"
  | .notifyIn => "NOTIFY_IN"
  | .presenceOut => "PRESENCE_OUT"
  | .presenceProbe => "PRESENCE_PROBE"
  | .messageWaiting => "MESSAGE_WAITING"
  | .messageQuery => "MESSAGE_QUERY"
  | .roster => "ROSTER"
  | .codec => "CODEC"
  | .backgroundJob => "BACKGROUND_JOB"
  | .detectedSpeech => "DETECTED_SPEECH"
  | .detectedTone => "DETECTED_TONE"
  | .privateCommand => "PRIVATE_COMMAND"
  | .heartbeat => "HEARTBEAT"
  | .trap => "TRAP"
  | .addSchedule => "ADD_SCHEDULE"
  | .delSchedule => "DEL_SCHEDULE"
  | .exeSchedule => "EXE_SCHEDULE"
  | .reSchedule => "RE_SCHEDULE"
  | .reloadXml => "RELOADXML"
  | .notify => "NOTIFY"
  | .phoneFeature => "PHONE_FEATURE"
  | .phoneFeatureSubscribe => "PHONE_FEATURE_SUBSCRIBE"
  | .sendMessage => "SEND_MESSAGE"
  | .recvMessage => "RECV_MESSAGE"
  | .requestParams => "REQUEST_PARAMS"
  | .channelData => "CHANNEL_DATA"
  | .general => "GENERAL"
  | .command => "COMMAND"
  | .sessionHeartbeat => "SESSION_HEARTBEAT"
  | .clientDisconnected => "CLIENT_DISCONNECTED"
  | .serverDisconnected => "SERVER_DISCONNECTED"
  | .sendInfo => "SEND_INFO"
  | .recvInfo => "RECV_INFO"
  | .recvRtcpMessage => "RECV_RTCP_MESSAGE"
  | .sendRtcpMessage => "SEND_RTCP_MESSAGE"
  | .callSecure => "CALL_SECURE"
  | .nat => "NAT"
  | .recordStart => "RECORD_START"
  | .recordStop => "RECORD_STOP"
  | .playbackStart => "PLAYBACK_START"
  | .playbackStop => "PLAYBACK_STOP"
  | .callUpdate => "CALL_UPDATE"
  | .failure => "FAILURE"
  | .socketData => "SOCKET_DATA"
  | .mediaBugStart => "MEDIA_BUG_START"
  | .mediaBugStop => "MEDIA_BUG_STOP"
  | .conferenceDataQuery => "CONFERENCE_DATA_QUERY"
  | .conferenceData => "CONFERENCE_DATA"
  | .callSetupReq => "CALL_SETUP_REQ"
  | .callSetupResult => "CALL_SETUP_RESULT"
  | .callDetail => "CALL_DETAIL"
  | .deviceState => "DEVICE_STATE"
  | .text => "TEXT"
  | .shutdownRequested => "SHUTDOWN_REQUESTED"
  | .all => "ALL"
  | .startRecording => "START_RECORDING"

def display (t : EslEventType) : Str := t.wireName.toList

def allTypes : List EslEventType :=
  [.custom, .clone, .channelCreate, .channelDestroy, .channelState, .channelCallstate,
   .channelAnswer, .channelHangup, .channelHangupComplete, .channelExecute,
   .channelExecuteComplete, .channelHold, .channelUnhold, .channelBridge, .channelUnbridge,
   .channelProgress, .channelProgressMedia, .channelOutgoing, .channelPark, .channelUnpark,
   .channelApplication, .channelOriginate, .channelUuid, .api, .log, .inboundChan,
   .outboundChan, .startup, .shutdown, .publish, .unpublish, .talk, .notalk, .sessionCrash,
   .moduleLoad, .moduleUnload, .dtmf, .message, .presenceIn, .notifyIn, .presenceOut,
   .presenceProbe, .messageWaiting, .messageQuery, .roster, .codec, .backgroundJob,
   .detectedSpeech, .detectedTone, .privateCommand, .heartbeat, .trap, .addSchedule,
   .delSchedule, .exeSchedule, .reSchedule, .reloadXml, .notify, .phoneFeature,
   .phoneFeatureSubscribe, .sendMessage, .recvMessage, .requestParams, .channelData, .general,
   .command, .sessionHeartbeat, .clientDisconnected, .serverDisconnected, .sendInfo, .recvInfo,
   .recvRtcpMessage, .sendRtcpMessage, .callSecure, .nat, .recordStart, .recordStop,
   .playbackStart, .playbackStop, .callUpdate, .failure, .socketData, .mediaBugStart,
   .mediaBugStop, .conferenceDataQuery, .conferenceData, .callSetupReq, .callSetupResult,
   .callDetail, .deviceState, .text, .shutdownRequested, .all, .startRecording]

/-- `char::to_uppercase` as far as the result is ASCII.  The other characters
stay as they are: the result is only compared with ASCII names. -/
def toUppercase (c : Char) : Str :=
  if c.isLower then [c.toUpper] else
    match c.toNat with
    | 0x00DF => ['S', 'S']
    | 0x0131 => ['I']
    | 0x017F => ['S']
    | 0xFB00 => ['F', 'F']
    | 0xFB01 => ['F', 'I']
    | 0xFB02 => ['F', 'L']
    | 0xFB03 => ['F', 'F', 'I']
    | 0xFB04 => ['F', 'F', 'L']
    | 0xFB05 => ['S', 'T']
    | 0xFB06 => ['S', 'T']
    | _ => [c]

def parseEventType (s : Str) : Option EslEventType :=
  let upper := s.flatMap toUppercase
  allTypes.find? fun t ↦ decide (t.display = upper)

end EslEventType

/-! ## Event formats -/

inductive EventFormat where
  | plain
  | json
  | xml
  deriving DecidableEq

namespace EventFormat

def fromContentType (ct : Str) : EventFormat :=
  if ct = "text/event-json".toList then .json
  else if ct = "text/event-xml".toList then .xml
  else .plain

def display : EventFormat → Str
  | .plain => "plain".toList
  | .json => "json".toList
  | .xml => "xml".toList

end EventFormat

/-! ## The event record -/

structure EslEvent where
  eventType : Option EslEventType
  headers : HeaderMap
  body : Option Str
  deriving DecidableEq

namespace EslEvent

def new : EslEvent := ⟨none, HeaderMap.empty, none⟩

def header (e : EslEvent) (name : Str) : Option Str := e.headers.get name

def setHeader (e : EslEvent) (name value : Str) : EslEvent :=
  { e with headers := e.headers.insert name value }

def setBody (e : EslEvent) (body : Str) : EslEvent := { e with body := some body }

def setEventType (e : EslEvent) (eventType : Option EslEventType) : EslEvent :=
  { e with eventType := eventType }

@[simp] theorem header_setHeader_self (e : EslEvent) (name value : Str) :
    (e.setHeader name value).header name = some value :=
  HeaderMap.get_insert_self e.headers name value

theorem header_setHeader_of_ne (e : EslEvent) {name other : Str} (value : Str)
    (h : other ≠ name) : (e.setHeader name value).header other = e.header other :=
  HeaderMap.get_insert_of_ne e.headers value h

/-- Setting headers one after the other only stores them in the map. -/
theorem foldl_setHeader {α : Type} {f : EslEvent → α → EslEvent} (entry : α → Str × Str)
    (hf : ∀ e a, f e a = e.setHeader (entry a).1 (entry a).2) (l : List α) (e : EslEvent) :
    l.foldl f e =
      { e with headers := (l.map entry).foldl (fun m p ↦ m.insert p.1 p.2) e.headers } := by
  induction l generalizing e with
  | nil => rfl
  | cons a l ih =>
      rw [List.foldl_cons, hf]
      exact ih (e.setHeader (entry a).1 (entry a).2)

end EslEvent

end FreeswitchEsl
