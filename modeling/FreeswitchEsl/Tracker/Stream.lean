import FreeswitchEsl.Connection.Transport
import FreeswitchEsl.Tracker.History

/-!
# The tracker on a connection

The tracker reads the stream of a connection.  Whatever the segments in which the bytes come
and whatever else the tasks of the client do in between, it follows the events of the server.
-/

namespace FreeswitchEsl.Tracker

open Text

/-- What the server says about a channel when it sends an event. -/
def serverLifecycle (uuid : Str) (e : EslEvent) : Option Bool :=
  if e.uniqueId = some uuid then
    lifecycle ((e.header HEADER_EVENT_NAME).bind EslEventType.parseEventType)
  else none

theorem uniqueId_of_restores {e e' : EslEvent} (h : e.Restores e') : e'.uniqueId = e.uniqueId := by
  have hunique : e'.header EslEvent.HEADER_UNIQUE_ID = e.header EslEvent.HEADER_UNIQUE_ID :=
    h.header _ (by decide)
  have hcaller : e'.header EslEvent.HEADER_CALLER_UUID = e.header EslEvent.HEADER_CALLER_UUID :=
    h.header _ (by decide)
  rw [EslEvent.uniqueId, EslEvent.uniqueId, hunique, hcaller]

theorem lifecycle_of_restores {e e' : EslEvent} {d : Delivery} (hd : d.result = .ok e')
    (h : e.Restores e') (uuid : Str) : d.lifecycle uuid = serverLifecycle uuid e := by
  rw [Delivery.lifecycle, hd, serverLifecycle, ← h.eventType, ← uniqueId_of_restores h]

/-- Deliveries that restore the events of the server fix the same channels. -/
theorem filterMap_lifecycle {es : List EslEvent} {ds : List Delivery}
    (h : List.Forall₂ (fun e r ↦ ∃ e', r = .ok e' ∧ e.Restores e') es (ds.map Delivery.result))
    (uuid : Str) :
    ds.filterMap (Delivery.lifecycle uuid) = es.filterMap (serverLifecycle uuid) := by
  induction ds generalizing es with
  | nil =>
      obtain rfl : es = [] := by simpa using h
      rfl
  | cons d ds ih =>
      rw [List.map_cons] at h
      cases h with
      | cons hd hds =>
          obtain ⟨e', hresult, hrestores⟩ := hd
          rw [List.filterMap_cons, List.filterMap_cons, ih hds,
            lifecycle_of_restores hresult hrestores]

variable {X : Crates} {env : Env} {order : HashOrder} {es : List EslEvent}
  {ms : List WireMessage} {ws : List Bytes} {eventQueueSize : Nat} {as : List Act} {s : Connection}
  {ahead : Bytes} {ds : List Delivery} {t : ChannelTracker}

/-- A tracker that takes what the application has received follows the server: a channel is
tracked exactly when the last of the events taken so far that created or destroyed it created
it, and once everything has arrived and been taken, these are all events of the server. -/
theorem tracks_server (hX : X.PercentLaws) (hes : ∀ e ∈ es, e.CleanNames ∧ e.body ≠ some [])
    (hms : List.Forall₂ (WireMessage.CarriesPlain X order) es ms)
    (hws : List.Forall₂ (fun m w ↦ m.Writes X w) ms ws) (hroom : es.length ≤ eventQueueSize)
    (hrun : Transition.run (Connection.step X) (.init eventQueueSize EslParser.new) as = some s)
    (hbytes : as.flatMap Act.incoming ++ ahead = ws.flatten)
    (halive : s.delivery.channel.receiverAlive = true)
    (hds : ds.map Delivery.result = s.delivery.channel.received.map Sent.value)
    (hturns : Transition.run (ChannelTracker.turn env) .new ds = some t) (uuid : Str) :
    ((t.read uuid).isSome ↔
        Keyed.lastFixed (serverLifecycle uuid) (es.take ds.length) = some true) ∧
      (ahead = [] → s.reader.pc = .reading → s.delivery.channel.queue = [] →
        ds.length = es.length) := by
  obtain ⟨h, hdropped⟩ := transporting_plainEvents hX hes hms hws hroom hrun hbytes
  obtain ⟨hfirst, hcomplete⟩ := h.values halive hdropped
  have hresults := WireMessage.eventResults_of_carriesPlain hX hes hms
  have hlength : ds.length = s.delivery.channel.received.length := by
    have hlengths := congrArg List.length hds
    rwa [List.length_map, List.length_map] at hlengths
  constructor
  · have hreceived : ds.map Delivery.result <+: WireMessage.eventResults X ms := by
      rw [hds]
      refine List.IsPrefix.trans ?_ hfirst
      rw [BoundedChannel.log, List.map_append]
      exact List.prefix_append _ _
    have hrel := forall₂_take_of_isPrefix hresults hreceived
    rw [List.length_map] at hrel
    rw [isSome_read_of_run hturns, Keyed.lastFixed, filterMap_lifecycle hrel]
    exact getD_false_iff
  · intro hahead hpc hqueue
    have hall := congrArg List.length (hcomplete hahead hpc)
    rw [BoundedChannel.log, hqueue, List.append_nil, List.length_map] at hall
    rw [hlength, hall, hresults.length_eq]

/-- The event of a channel that comes up, and the message that carries it. -/
def createEvent : EslEvent :=
  ⟨none, HeaderMap.ofList [(HEADER_EVENT_NAME, "CHANNEL_CREATE".toList),
    (EslEvent.HEADER_UNIQUE_ID, "a".toList)], none⟩

def createMessage : WireMessage :=
  { WireMessage.talk with
    body := some "Event-Name: CHANNEL%5FCREATE\nUnique-ID: a\n\n".toList
    body_fits := by
      rintro b hb
      obtain rfl := Option.some.inj hb
      decide }

def createFrame : Bytes := utf8Encode
  ("Content-Type: text/event-plain\nContent-Length: 43\n\n" ++
    "Event-Name: CHANNEL%5FCREATE\nUnique-ID: a\n\n").toList

theorem writes_createFrame : createMessage.Writes .percentOnly createFrame := by
  refine ⟨[(HEADER_CONTENT_TYPE, CONTENT_TYPE_TEXT_EVENT_PLAIN),
      (HEADER_CONTENT_LENGTH, ['4', '3'])],
    ["Content-Type: text/event-plain".toList, "Content-Length: 43".toList], ?_, ?_, by decide⟩
  · exact List.Perm.swap _ _ _
  · refine .cons ⟨_, .raw ?_ ?_ ?_, rfl⟩ (.cons ⟨_, .raw ?_ ?_ ?_, rfl⟩ .nil)
    all_goals decide

/-- The frame comes in two chunks, and the application takes the event. -/
def createActs : List Act :=
  [.reader, .read (.data (createFrame.take 60)), .reader, .read (.data (createFrame.drop 60)),
    .reader, .reader, .recv, .reader]

theorem tracks_server_create :
    ∃ s ds t, Transition.run (Connection.step .percentOnly) (.init 1 EslParser.new) createActs =
        some s ∧
      ds.map Delivery.result = s.delivery.channel.received.map Sent.value ∧
      Transition.run (ChannelTracker.turn .published) .new ds = some t ∧
      ((t.read "a".toList).isSome ↔ Keyed.lastFixed (serverLifecycle "a".toList)
        ([createEvent].take ds.length) = some true) ∧
      ds.length = 1 := by
  have hrun : (Transition.run (Connection.step .percentOnly) (.init 1 EslParser.new)
      createActs).any (fun s ↦ s.delivery.channel.receiverAlive = true ∧
        s.reader.pc.isReading = true ∧ s.delivery.channel.queue.isEmpty = true ∧
          (Transition.run (ChannelTracker.turn .published) .new
            (s.delivery.channel.received.map fun sent ↦
              ⟨sent.value, .error .notConnected⟩)).isSome = true) = true := by
    decide +kernel
  obtain ⟨s, hs, halive, hreading, hqueue, hturns⟩ := Transition.exists_run_of_any hrun
  obtain ⟨t, ht⟩ := Option.isSome_iff_exists.mp hturns
  have hbytes : createActs.flatMap Act.incoming ++ [] = [createFrame].flatten := by
    decide +kernel
  have hcarries : WireMessage.CarriesPlain .percentOnly .byName createEvent createMessage := by
    refine ⟨rfl, congrArg some ?_⟩
    decide +kernel
  have hnames : createEvent.CleanNames := by
    intro name value hvalue
    have hcheck : ∀ p ∈ HashOrder.byName.entries createEvent.headers,
        ':' ∉ p.1 ∧ '\n' ∉ p.1 ∧ Trimmed p.1 := by
      decide +kernel
    exact hcheck (name, value) (HashOrder.byName.mem_entries_iff.mpr hvalue)
  have hclean : ∀ e ∈ [createEvent], e.CleanNames ∧ e.body ≠ some [] := by
    intro e he
    obtain rfl := List.mem_singleton.mp he
    exact ⟨hnames, by decide⟩
  have hds : (s.delivery.channel.received.map fun sent ↦
      (⟨sent.value, .error .notConnected⟩ : Delivery)).map Delivery.result =
        s.delivery.channel.received.map Sent.value := by
    rw [List.map_map]
    rfl
  obtain ⟨htracked, hall⟩ := tracks_server Crates.percentOnly_percentLaws hclean
    (.cons hcarries .nil) (.cons writes_createFrame .nil) (le_refl 1) hs hbytes halive hds ht
    "a".toList
  exact ⟨s, _, t, hs, hds, ht, htracked,
    hall rfl (ReaderPc.of_isReading hreading) (List.isEmpty_iff.mp hqueue)⟩

end FreeswitchEsl.Tracker
