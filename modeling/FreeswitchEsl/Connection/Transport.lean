import FreeswitchEsl.Connection.Overflow
import FreeswitchEsl.Connection.Reading
import FreeswitchEsl.Connection.Recovery
import FreeswitchEsl.Protocol.Formats
import FreeswitchEsl.Protocol.PlainEvent
import FreeswitchEsl.Protocol.RoundTrip

/-!
# From the server to the application

The server writes messages one behind the other; the network cuts their bytes as it
likes; the reader parses, dispatches and hands replies over while calls of clients run.
What the application receives is followed from one end to the other.
-/

namespace FreeswitchEsl

open Text Transition Incremental

variable (X : Crates)

/-- The bytes that a step takes from the network. -/
def Act.incoming : Act → Bytes
  | .read (.data chunk) => chunk
  | _ => []

/-- The results that the event messages among `ms` stand for. -/
def WireMessage.eventResults (ms : List WireMessage) : List (EslResult EslEvent) :=
  ((ms.map WireMessage.decoded).filter fun m ↦ decide (m.messageType = .event)).map
    (EslMessage.eventResult X)

/-- The reader has parsed the first of the messages; the others are in its buffer and
in the bytes ahead of it. -/
structure Arriving (r : ReaderTask) (ahead : Bytes) (messages : List EslMessage) : Prop where
  parsed : r.messages <+: messages
  coming : r.pc.live = true → ∃ later,
    (framing X).drain r.parser.state (r.parser.buffer.data ++ ahead) =
        (later, .waiting .waitingForHeaders []) ∧
      messages = r.messages ++ later

variable {X}

/-! ## Messages on their way -/

/-- A parser that cannot make a message of its buffer asks for more. -/
theorem frame_of_starves {s : ParseState} {b : Bytes} (h : s.Starves b) :
    frame X s b = .more s b := by
  cases s with
  | waitingForHeaders =>
      have hnone : Pattern.find HEADER_TERMINATOR b = none := h
      simp only [frame, hnone]
  | waitingForBody messageType headers length =>
      have hshort : b.length < length := h
      simp only [frame, frameBody]
      rw [if_neg (by omega)]

namespace Arriving

variable {r r' : ReaderTask} {ahead : Bytes} {messages : List EslMessage}

theorem of_pc (h : Arriving X r ahead messages) (hparser : r'.parser = r.parser)
    (hmessages : r'.messages = r.messages) (hlive : r'.pc.live = true → r.pc.live = true) :
    Arriving X r' ahead messages where
  parsed := by
    rw [hmessages]
    exact h.parsed
  coming := by
    intro h'
    rw [hmessages, hparser]
    exact h.coming (hlive h')

theorem parse (h : Arriving X r ahead messages) (overflow : Bool) (hpc : r.pc = .parsing) :
    Arriving X (r.parse X overflow) ahead messages := by
  obtain ⟨later, hdrain, hmessages⟩ := h.coming (by rw [hpc]; rfl)
  unfold ReaderTask.parse
  split
  · rename_i message parser hparse
    -- the message is the first of those to come
    have hsome := framing_drain_of_some hparse ahead
    rw [hdrain] at hsome
    generalize hrest :
      (framing X).drain parser.state (parser.buffer.data ++ ahead) = rest at hsome
    obtain ⟨rest, stop⟩ := rest
    obtain ⟨rfl, rfl⟩ := Prod.mk.inj hsome
    have hsplit : messages = (r.messages ++ [message]) ++ rest := by
      rw [hmessages]
      simp
    refine ⟨?_, fun _ ↦ ⟨rest, ?_, ?_⟩⟩
    · rw [ReaderTask.messages_handle]
      exact ⟨rest, hsplit.symm⟩
    · rw [ReaderTask.parser_handle]
      exact hrest
    · rw [ReaderTask.messages_handle]
      exact hsplit
  · rename_i parser hparse
    refine ⟨h.parsed, fun _ ↦ ⟨later, ?_, hmessages⟩⟩
    rw [← hdrain]
    exact framing_drain_of_none hparse ahead
  · exact ⟨h.parsed, fun hlive ↦ by cases hlive⟩

theorem read {outcome : ReadOutcome}
    (h : Arriving X r ((Act.read outcome).incoming ++ ahead) messages) (hpc : r.pc = .reading)
    (now : Nat) (livenessTimeoutMs : UInt64) :
    Arriving X (r.read now livenessTimeoutMs outcome) ahead messages := by
  have hlive : r.pc.live = true := by
    rw [hpc]
    rfl
  cases outcome with
  | data chunk =>
      obtain ⟨later, hdrain, hmessages⟩ := h.coming hlive
      unfold ReaderTask.read
      dsimp only
      split
      · rename_i parser hadd
        refine ⟨h.parsed, fun _ ↦ ⟨later, ?_, hmessages⟩⟩
        obtain ⟨-, rfl⟩ := Prod.mk.inj hadd
        dsimp only
        rw [EslBuffer.data_extendFromSlice, List.append_assoc]
        exact hdrain
      · exact ⟨h.parsed, fun hlive ↦ by cases hlive⟩
  | eof => exact h.of_pc rfl rfl fun _ ↦ hlive
  | error e => exact h.of_pc rfl rfl fun _ ↦ hlive
  | timedOut =>
      unfold ReaderTask.read
      dsimp only
      split
      · exact h.of_pc rfl rfl fun _ ↦ hlive
      · exact h.of_pc rfl rfl fun _ ↦ hlive

end Arriving

theorem arriving_step {s t : Connection} {a : Act} {ahead : Bytes} {messages : List EslMessage}
    (h : Arriving X s.reader (a.incoming ++ ahead) messages) (hstep : s.step X a = some t) :
    Arriving X t.reader ahead messages := by
  cases Connection.effect_of_step X hstep with
  | parsed hpc => exact h.parse _ hpc
  | read hpc _ => exact h.read hpc _ _
  | noticed hpc _ _ | dispatched hpc _ _ | replied hpc =>
      refine h.of_pc rfl rfl fun _ ↦ ?_
      rw [hpc]
      rfl
  | noticeRefused _ _ | itemRefused _ _ | returned _ | unwound _ | panicked _ =>
      exact h.of_pc rfl rfl fun hlive ↦ by cases hlive
  | called _ | shutdown _ | livenessSet | commandTimeoutSet | received _ | streamDropped
  | ticked => exact h

/-- Written messages are on their way to a new reader, behind what its parser holds. -/
theorem arriving_init (hX : X.PercentLaws) {ms : List WireMessage} {ws : List Bytes}
    (hws : List.Forall₂ (fun m w ↦ m.Writes X w) ms ws) (eventQueueSize : Nat) {p : EslParser}
    (hstate : p.state = .waitingForHeaders) {ahead : Bytes}
    (hdata : p.buffer.data ++ ahead = ws.flatten) :
    Arriving X (Connection.init eventQueueSize p).reader ahead (ms.map WireMessage.decoded) where
  parsed := List.nil_prefix
  coming := by
    intro _
    refine ⟨ms.map WireMessage.decoded, ?_, rfl⟩
    have hws' : List.Forall₂ (fun e w ↦ ∃ m : WireMessage, m.decoded = e ∧ m.Writes X w)
        (ms.map WireMessage.decoded) ws := by
      rw [List.forall₂_map_left_iff]
      exact hws.imp fun m w hw ↦ ⟨m, rfl, hw⟩
    have hmore : (framing X).step .waitingForHeaders [] = .more .waitingForHeaders [] := rfl
    have hframes : (framing X).drain .waitingForHeaders (ws.flatten ++ []) =
        (ms.map WireMessage.decoded, .waiting .waitingForHeaders []) := by
      rw [(framing X).drain_flatten _ hws']
      · rw [(framing X).drain_of_more hmore, List.append_nil]
      · rintro e w ⟨m, rfl, hw⟩ rest
        exact frame_of_writes hX hw rest
    rw [List.append_nil] at hframes
    change (framing X).drain p.state (p.buffer.data ++ ahead) = _
    rw [hstate, hdata]
    exact hframes

/-- A reader that waits for bytes when none are ahead of it has parsed everything. -/
theorem Arriving.complete {r : ReaderTask} {messages : List EslMessage}
    (h : Arriving X r [] messages) (hfed : r.FedInTurn X) (hpc : r.pc = .reading) :
    r.messages = messages := by
  have hlive : r.pc.live = true := by
    rw [hpc]
    rfl
  obtain ⟨later, hdrain, hmessages⟩ := h.coming hlive
  obtain ⟨drained, ⟨ops, s, hrun, hparser, hdrained⟩, hreading⟩ := hfed hlive
  have hstarved := (bounded_of_run hrun).starved (hdrained.trans (hreading hpc))
  rw [hparser] at hstarved
  have hmore : (framing X).step r.parser.state r.parser.buffer.data =
      .more r.parser.state r.parser.buffer.data := frame_of_starves hstarved
  rw [List.append_nil, (framing X).drain_of_more hmore] at hdrain
  obtain ⟨rfl, -⟩ := Prod.mk.inj hdrain
  rw [hmessages, List.append_nil]

/-! ## What the application receives -/

/-- With nothing dropped, the items sent are the results that the reader is done with. -/
theorem Accounted.values_eq {r : ReaderTask} {d : Delivery} (h : Accounted X r d)
    (halive : d.channel.receiverAlive = true) (hdropped : d.dropped = []) :
    d.channel.log.map Sent.value ++ r.pc.inFlight = r.eventResults X := by
  obtain ⟨past, hpast, hsub, hlength⟩ := h.delivered halive
  have hnotices := h.notices
  rw [hdropped] at hlength hnotices
  have hnone : d.channel.log.countP Sent.isNotice = 0 := by
    simp only [List.length_nil] at hnotices
    omega
  -- without a notice the values are the results
  have hvalues : d.channel.log.map Sent.value = d.channel.log.filterMap Sent.result := by
    have hitems : ∀ i ∈ d.channel.log, i.isNotice = false := by
      intro i hi
      simpa using List.countP_eq_zero.mp hnone i hi
    rw [← List.filterMap_eq_map]
    apply List.filterMap_congr
    intro i hi
    cases i with
    | notice => cases hitems _ hi
    | item number result => rfl
  rw [hvalues, hsub.eq_of_length hlength, hpast]

theorem prefix_eventResults {r : ReaderTask} {ahead : Bytes} {ms : List WireMessage}
    (h : Arriving X r ahead (ms.map WireMessage.decoded)) :
    r.eventResults X <+: WireMessage.eventResults X ms := by
  obtain ⟨later, hlater⟩ := h.parsed
  refine ⟨(later.filter fun m ↦ decide (m.messageType = .event)).map
    (EslMessage.eventResult X), ?_⟩
  rw [WireMessage.eventResults, ← hlater, List.filter_append, List.map_append]
  rfl

/-- A connection in a run from the start, with the server's bytes that it has not read. -/
structure Transporting (ms : List WireMessage) (s : Connection) (ahead : Bytes) : Prop where
  arriving : Arriving X s.reader ahead (ms.map WireMessage.decoded)
  accounted : Accounted X s.reader s.delivery
  fedInTurn : s.reader.FedInTurn X

namespace Transporting

variable {ms : List WireMessage} {s t : Connection} {ahead : Bytes}

theorem init (hX : X.PercentLaws) {ws : List Bytes}
    (hws : List.Forall₂ (fun m w ↦ m.Writes X w) ms ws) (eventQueueSize : Nat) {p : EslParser}
    (hfed : Fed X p false) (hstate : p.state = .waitingForHeaders)
    (hdata : p.buffer.data ++ ahead = ws.flatten) :
    Transporting (X := X) ms (.init eventQueueSize p) ahead where
  arriving := arriving_init hX hws eventQueueSize hstate hdata
  accounted := accounted_init eventQueueSize p
  fedInTurn _ := ⟨false, hfed, fun h ↦ by cases h⟩

theorem step {a : Act} (h : Transporting (X := X) ms s (a.incoming ++ ahead))
    (hstep : s.step X a = some t) : Transporting (X := X) ms t ahead where
  arriving := arriving_step h.arriving hstep
  accounted := accounted_step h.accounted hstep
  fedInTurn := Connection.fedInTurn_step h.fedInTurn hstep

theorem run {as : List Act} (h : Transporting (X := X) ms s (as.flatMap Act.incoming ++ ahead))
    (hrun : run (Connection.step X) s as = some t) : Transporting (X := X) ms t ahead := by
  induction as generalizing s with
  | nil =>
      obtain rfl : s = t := Option.some.inj hrun
      exact h
  | cons a as ih =>
      obtain ⟨v, hv, hrest⟩ := run_cons_eq_some.mp hrun
      rw [List.flatMap_cons, List.append_assoc] at h
      exact ih (h.step hv) hrest

/-- What has been received and what is queued, when nothing is dropped. -/
theorem values (h : Transporting (X := X) ms s ahead)
    (halive : s.delivery.channel.receiverAlive = true) (hdropped : s.delivery.dropped = []) :
    s.delivery.channel.log.map Sent.value <+: WireMessage.eventResults X ms ∧
      (ahead = [] → s.reader.pc = .reading →
        s.delivery.channel.log.map Sent.value = WireMessage.eventResults X ms) := by
  have hvalues := h.accounted.values_eq halive hdropped
  refine ⟨?_, ?_⟩
  · exact (List.prefix_append _ _).trans (hvalues ▸ prefix_eventResults h.arriving)
  · rintro rfl hpc
    rw [hpc] at hvalues
    rw [← List.append_nil (s.delivery.channel.log.map Sent.value)]
    refine hvalues.trans ?_
    rw [ReaderTask.eventResults, ReaderTask.eventMessages, h.arriving.complete h.fedInTurn hpc]
    rfl

end Transporting

/-- Whatever the chunks and whatever else happens on the connection: while nothing is
dropped, the application receives the results for the server's event messages in the
order in which they were written, and all of them once they have arrived. -/
theorem events_transported (hX : X.PercentLaws) {ms : List WireMessage} {ws : List Bytes}
    (hws : List.Forall₂ (fun m w ↦ m.Writes X w) ms ws) {eventQueueSize : Nat} {as : List Act}
    {t : Connection} {ahead : Bytes}
    (hrun : run (Connection.step X) (.init eventQueueSize EslParser.new) as = some t)
    (hbytes : as.flatMap Act.incoming ++ ahead = ws.flatten)
    (halive : t.delivery.channel.receiverAlive = true) (hdropped : t.delivery.dropped = []) :
    let values := (t.delivery.channel.received ++ t.delivery.channel.queue).map Sent.value
    values <+: WireMessage.eventResults X ms ∧
      (ahead = [] → t.reader.pc = .reading → values = WireMessage.eventResults X ms) := by
  have hinit : Transporting ms (.init eventQueueSize EslParser.new) ws.flatten :=
    Transporting.init hX hws eventQueueSize Fed.new rfl rfl
  rw [← hbytes] at hinit
  exact (hinit.run hrun).values halive hdropped

/-- A message that carries the event `TALK`. -/
def WireMessage.talk : WireMessage where
  headers := [(HEADER_CONTENT_TYPE, CONTENT_TYPE_TEXT_EVENT_PLAIN)]
  body := some "Event-Name: TALK\n\n".toList
  contentType := CONTENT_TYPE_TEXT_EVENT_PLAIN
  nodup := by decide
  name_clean := by decide
  contentLength_notMem := by decide
  contentType_mem := by decide
  body_fits := by
    rintro b hb
    obtain rfl := Option.some.inj hb
    decide

def talkFrame : Bytes := utf8Encode
  "Content-Type: text/event-plain\nContent-Length: 18\n\nEvent-Name: TALK\n\n".toList

theorem writes_talkFrame : WireMessage.talk.Writes .percentOnly talkFrame := by
  refine ⟨[(HEADER_CONTENT_TYPE, CONTENT_TYPE_TEXT_EVENT_PLAIN),
      (HEADER_CONTENT_LENGTH, ['1', '8'])],
    ["Content-Type: text/event-plain".toList, "Content-Length: 18".toList], ?_, ?_, by decide⟩
  · exact List.Perm.swap _ _ _
  · refine .cons ⟨_, .raw ?_ ?_ ?_, rfl⟩ (.cons ⟨_, .raw ?_ ?_ ?_, rfl⟩ .nil)
    all_goals decide

/-- Two events in three chunks, while a client asks for the status. -/
def talkTwice : List Act :=
  [.reader, .read (.data (talkFrame.take 40)), .reader,
    .call 0 (.start .byName (.api "status".toList)), .read (.data (talkFrame.drop 40)), .reader,
    .reader, .call 0 .lock, .recv, .reader, .read (.data talkFrame), .reader, .reader, .reader]

theorem events_transported_talkTwice :
    ∃ t, run (Connection.step .percentOnly) (.init 1 EslParser.new) talkTwice = some t ∧
      (t.delivery.channel.received ++ t.delivery.channel.queue).map Sent.value =
        WireMessage.eventResults .percentOnly [WireMessage.talk, WireMessage.talk] := by
  have hrun : (run (Connection.step .percentOnly) (.init 1 EslParser.new) talkTwice).any
      (fun t ↦ t.delivery.channel.receiverAlive = true ∧ t.delivery.dropped = [] ∧
        t.reader.pc.isReading = true) = true := by
    decide +kernel
  obtain ⟨t, ht, halive, hdropped, hreading⟩ := exists_run_of_any hrun
  have hbytes : talkTwice.flatMap Act.incoming ++ [] = [talkFrame, talkFrame].flatten := by
    decide +kernel
  have h := events_transported Crates.percentOnly_percentLaws
    (.cons writes_talkFrame (.cons writes_talkFrame .nil)) ht hbytes halive hdropped
  exact ⟨t, ht, h.2 rfl (ReaderPc.of_isReading hreading)⟩

/-! ## Events in plain format -/

/-- Only a full queue makes a step drop something. -/
theorem dropped_of_step {s t : Connection} {a : Act} (hstep : s.step X a = some t) :
    t.delivery.dropped = s.delivery.dropped ∨
      ∃ result, s.reader.pc = .sending result ∧ s.delivery.channel.receiverAlive = true ∧
        s.delivery.channel.queue.length = s.delivery.channel.capacity := by
  cases Connection.effect_of_step X hstep with
  | noticed _ hnotify _ =>
      rcases Delivery.notify_cases hnotify with
        ⟨-, -, -, -, -, -, -, -, hsame⟩ | ⟨-, rfl, -⟩ | ⟨-, rfl, -⟩
      · exact Or.inl hsame
      · exact Or.inl rfl
      · exact Or.inl rfl
  | noticeRefused _ hnotify =>
      obtain ⟨rfl, -⟩ := Delivery.of_notify_closed hnotify
      exact Or.inl rfl
  | dispatched hpc hsend hopen =>
      rcases Delivery.send_cases hsend with
        ⟨-, -, -, -, -, -, -, -, hsame⟩ | ⟨-, halive, hfull, -⟩ | ⟨-, rfl, -⟩
      · exact Or.inl hsame
      · exact Or.inr ⟨_, hpc, halive, hfull⟩
      · exact Or.inl rfl
  | itemRefused _ hsend =>
      obtain ⟨rfl, -⟩ := Delivery.of_send_closed hsend
      exact Or.inl rfl
  | parsed _ | replied _ | returned _ | unwound _ | read _ _ | panicked _ | called _ | shutdown _
  | livenessSet | commandTimeoutSet | received _ | streamDropped | ticked => exact Or.inl rfl

/-- A queue with room for every event that can come drops nothing. -/
theorem Transporting.nothing_dropped {ms : List WireMessage} {s t : Connection} {as : List Act}
    {ahead : Bytes} (h : Transporting (X := X) ms s (as.flatMap Act.incoming ++ ahead))
    (hdropped : s.delivery.dropped = [])
    (hroom : (WireMessage.eventResults X ms).length ≤ s.delivery.channel.capacity)
    (hrun : Transition.run (Connection.step X) s as = some t) : t.delivery.dropped = [] := by
  induction as generalizing s with
  | nil =>
      obtain rfl : s = t := Option.some.inj hrun
      exact hdropped
  | cons a as ih =>
      obtain ⟨v, hv, hrest⟩ := run_cons_eq_some.mp hrun
      have hcapacity := Connection.capacity_step hv
      have hnext : v.delivery.dropped = [] := by
        rcases dropped_of_step hv with hsame | ⟨result, hpc, halive, hfull⟩
        · rw [hsame, hdropped]
        · -- the queue holds fewer items than the results that the reader has got
          have hvalues := congrArg List.length (h.accounted.values_eq halive hdropped)
          have hle := (prefix_eventResults h.arriving).length_le
          rw [hpc] at hvalues
          simp only [ReaderPc.inFlight, BoundedChannel.log, List.length_append, List.length_map,
            List.length_singleton] at hvalues
          omega
      rw [List.flatMap_cons, List.append_assoc] at h
      exact ih (h.step hv) hnext (by rw [hcapacity]; exact hroom) hrest

/-- The message that carries an event in plain format. -/
def WireMessage.CarriesPlain (X : Crates) (order : HashOrder) (e : EslEvent) (m : WireMessage) :
    Prop :=
  m.contentType = CONTENT_TYPE_TEXT_EVENT_PLAIN ∧ m.body = some (e.toPlainFormat X order)

theorem WireMessage.eventResults_of_carriesPlain (hX : X.PercentLaws) {order : HashOrder}
    {es : List EslEvent} {ms : List WireMessage}
    (hes : ∀ e ∈ es, e.CleanNames ∧ e.body ≠ some [])
    (hms : List.Forall₂ (WireMessage.CarriesPlain X order) es ms) :
    List.Forall₂ (fun e r ↦ ∃ e', r = .ok e' ∧ e.Restores e') es
      (WireMessage.eventResults X ms) := by
  induction hms with
  | nil => exact .nil
  | @cons e m es ms hm _ ih =>
      obtain ⟨⟨hnames, hbody⟩, hrest⟩ := List.forall_mem_cons.mp hes
      obtain ⟨htype, htext⟩ := hm
      have hevent : m.decoded.messageType = .event := by
        rw [WireMessage.decoded, htype]
        change MessageType.fromContentType CONTENT_TYPE_TEXT_EVENT_PLAIN = .event
        decide
      have hformat : m.decoded.eventFormat = .plain := by
        have hget : m.decoded.headers.get HEADER_CONTENT_TYPE = some m.contentType :=
          HeaderMap.get_ofList_of_mem m.nodup_entries m.contentType_mem_entries
        rw [EslMessage.eventFormat, hget, htype]
        decide
      have hresult : m.decoded.eventResult X =
          .ok (withEventName ⟨none, e.plainHeaders, e.body⟩) := by
        rw [EslMessage.eventResult, hformat]
        have hdecoded : m.decoded = ⟨.event, m.decoded.headers,
            some (e.toPlainFormat X order)⟩ := by
          rw [← hevent, ← htext]
          rfl
        rw [hdecoded]
        exact parsePlainEvent_of_writesPlain hX hnames hbody
          (e.writesPlain_toPlainFormat X order) m.decoded.headers
      have hcons : WireMessage.eventResults X (m :: ms) =
          m.decoded.eventResult X :: WireMessage.eventResults X ms := by
        rw [WireMessage.eventResults, List.map_cons,
          List.filter_cons_of_pos (by rw [hevent]; rfl)]
        rfl
      rw [hcons]
      exact .cons ⟨_, hresult, e.restores_withEventName⟩ (ih hrest)

section Plain

variable {order : HashOrder} {es : List EslEvent} {ms : List WireMessage} {ws : List Bytes}
  {eventQueueSize : Nat} {as : List Act} {t : Connection} {ahead : Bytes}

/-- With room for all events of the server, nothing is dropped on the way. -/
theorem transporting_plainEvents (hX : X.PercentLaws)
    (hes : ∀ e ∈ es, e.CleanNames ∧ e.body ≠ some [])
    (hms : List.Forall₂ (WireMessage.CarriesPlain X order) es ms)
    (hws : List.Forall₂ (fun m w ↦ m.Writes X w) ms ws) (hroom : es.length ≤ eventQueueSize)
    (hrun : run (Connection.step X) (.init eventQueueSize EslParser.new) as = some t)
    (hbytes : as.flatMap Act.incoming ++ ahead = ws.flatten) :
    Transporting (X := X) ms t ahead ∧ t.delivery.dropped = [] := by
  have hinit : Transporting ms (.init eventQueueSize EslParser.new) ws.flatten :=
    Transporting.init hX hws eventQueueSize Fed.new rfl rfl
  rw [← hbytes] at hinit
  have hlength : (WireMessage.eventResults X ms).length ≤
      (Connection.init eventQueueSize EslParser.new).delivery.channel.capacity := by
    rw [← (WireMessage.eventResults_of_carriesPlain hX hes hms).length_eq]
    exact le_trans hroom (le_max_left _ _)
  exact ⟨hinit.run hrun, hinit.nothing_dropped rfl hlength hrun⟩

theorem forall₂_take_of_isPrefix {α β : Type} {R : α → β → Prop} {as : List α} {bs cs : List β}
    (h : List.Forall₂ R as bs) (hcs : cs <+: bs) : List.Forall₂ R (as.take cs.length) cs := by
  have htake : cs = bs.take cs.length := List.prefix_iff_eq_take.mp hcs
  have hrel := List.forall₂_take cs.length h
  rwa [← htake] at hrel

/-- A server that sends events in plain format, over a queue with room for all of them:
nothing is dropped, the application receives the events in order, each restored from its
text, and all of them once they have arrived. -/
theorem plainEvents_received (hX : X.PercentLaws)
    (hes : ∀ e ∈ es, e.CleanNames ∧ e.body ≠ some [])
    (hms : List.Forall₂ (WireMessage.CarriesPlain X order) es ms)
    (hws : List.Forall₂ (fun m w ↦ m.Writes X w) ms ws) (hroom : es.length ≤ eventQueueSize)
    (hrun : run (Connection.step X) (.init eventQueueSize EslParser.new) as = some t)
    (hbytes : as.flatMap Act.incoming ++ ahead = ws.flatten)
    (halive : t.delivery.channel.receiverAlive = true) :
    let values := (t.delivery.channel.received ++ t.delivery.channel.queue).map Sent.value
    t.delivery.dropped = [] ∧
      List.Forall₂ (fun e r ↦ ∃ e', r = .ok e' ∧ e.Restores e') (es.take values.length) values ∧
        (ahead = [] → t.reader.pc = .reading → values.length = es.length) := by
  intro values
  have hresults := WireMessage.eventResults_of_carriesPlain hX hes hms
  obtain ⟨h, hdropped⟩ := transporting_plainEvents hX hes hms hws hroom hrun hbytes
  obtain ⟨hfirst, hcomplete⟩ := h.values halive hdropped
  refine ⟨hdropped, forall₂_take_of_isPrefix hresults hfirst, fun hahead hpc ↦ ?_⟩
  rw [hresults.length_eq]
  exact congrArg List.length (hcomplete hahead hpc)

end Plain

theorem plainEvents_received_talkTwice :
    ∃ t, run (Connection.step .percentOnly) (.init 2 EslParser.new) talkTwice = some t ∧
      t.delivery.dropped = [] ∧ List.Forall₂ (fun e r ↦ ∃ e', r = .ok e' ∧ e.Restores e')
        [EslEvent.talk none, EslEvent.talk none]
        ((t.delivery.channel.received ++ t.delivery.channel.queue).map Sent.value) := by
  have hrun : (run (Connection.step .percentOnly) (.init 2 EslParser.new) talkTwice).any
      (fun t ↦ t.delivery.channel.receiverAlive = true ∧ t.reader.pc.isReading = true) = true := by
    decide +kernel
  obtain ⟨t, ht, halive, hreading⟩ := exists_run_of_any hrun
  have hbytes : talkTwice.flatMap Act.incoming ++ [] = [talkFrame, talkFrame].flatten := by
    decide +kernel
  have hcarries : WireMessage.CarriesPlain .percentOnly .byName (EslEvent.talk none)
      WireMessage.talk := by
    refine ⟨rfl, congrArg some ?_⟩
    decide +kernel
  have hclean : ∀ e ∈ [EslEvent.talk none, EslEvent.talk none],
      e.CleanNames ∧ e.body ≠ some [] := by
    intro e he
    obtain rfl : e = EslEvent.talk none := by simpa using he
    exact ⟨EslEvent.cleanNames_talk none, by decide⟩
  obtain ⟨hdropped, hreceived, hcomplete⟩ := plainEvents_received Crates.percentOnly_percentLaws
    hclean (.cons hcarries (.cons hcarries .nil))
    (.cons writes_talkFrame (.cons writes_talkFrame .nil)) (le_refl 2) ht hbytes halive
  rw [hcomplete rfl (ReaderPc.of_isReading hreading), List.take_length] at hreceived
  exact ⟨t, ht, hdropped, hreceived⟩

end FreeswitchEsl
