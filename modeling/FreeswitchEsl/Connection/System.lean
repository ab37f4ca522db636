import FreeswitchEsl.Connection.Clients
import FreeswitchEsl.Lib.Channel
import FreeswitchEsl.Lib.Transition
import FreeswitchEsl.Protocol.Parser

/-!
# A connection

The reader task, the event channel and the calls of the clients, as one system
whose steps interleave in any order.  What comes from the network, and when a
timer fires, is up to the labels.
-/

namespace FreeswitchEsl

open Text

variable (X : Crates)

/-! ## Event delivery -/

/-- An item of the event channel: a `QueueFull` notice or the result for an event
message.  The number of the message is for statements only, no step looks at it. -/
inductive Sent where
  | notice
  | item (number : Nat) (result : EslResult EslEvent)

def Sent.value : Sent → EslResult EslEvent
  | .notice => .error .queueFull
  | .item _ result => result

/-- The event channel with the overflow flag, the counter of dropped events, and
the numbers of the dropped items. -/
structure Delivery where
  channel : BoundedChannel Sent
  eventOverflow : Bool
  droppedEventCount : UInt64
  dropped : List Nat

namespace Delivery

/-- The first send of `dispatch_event`, made when the overflow flag is set. -/
def notify (d : Delivery) : BoundedChannel.SendResult × Delivery :=
  match d.channel.trySend .notice with
  | (.ok, channel) => (.ok, { d with channel := channel, eventOverflow := false })
  | (r, channel) => (r, { d with channel := channel })

/-- The second send of `dispatch_event`. -/
def send (d : Delivery) (number : Nat) (result : EslResult EslEvent) :
    BoundedChannel.SendResult × Delivery :=
  match d.channel.trySend (.item number result) with
  | (.full, channel) => (.full, {
      channel := channel
      eventOverflow := true
      droppedEventCount := d.droppedEventCount + 1
      dropped := d.dropped ++ [number] })
  | (r, channel) => (r, { d with channel := channel })

end Delivery

/-! ## The reader task -/

inductive ReaderPc where
  | parsing
  | notifying (result : EslResult EslEvent)
  | sending (result : EslResult EslEvent)
  | replying (message : EslMessage)
  | reading
  | returning
  | panicked
  | done

/-- The reader task, with the messages it has parsed so far. -/
structure ReaderTask where
  pc : ReaderPc
  parser : EslParser
  lastRecv : Nat
  status : ConnectionStatus
  messages : List EslMessage

def ReaderTask.disconnect (r : ReaderTask) (reason : DisconnectReason) : ReaderTask :=
  { r with pc := .returning, status := .disconnected reason }

/-- The format that the reader picks for an event message. -/
def EslMessage.eventFormat (m : EslMessage) : EventFormat :=
  ((m.headers.get HEADER_CONTENT_TYPE).map EventFormat.fromContentType).getD .plain

def EslMessage.eventResult (m : EslMessage) : EslResult EslEvent := parseEvent X m m.eventFormat

def ReaderTask.eventMessages (r : ReaderTask) : List EslMessage :=
  r.messages.filter fun m ↦ decide (m.messageType = .event)

/-- The branches of `reader_loop_inner` on a message. -/
def ReaderTask.handle (overflow : Bool) (message : EslMessage) (r : ReaderTask) : ReaderTask :=
  match message.messageType with
  | .event =>
      if overflow then { r with pc := .notifying (message.eventResult X) }
      else { r with pc := .sending (message.eventResult X) }
  | .commandReply | .apiResponse => { r with pc := .replying message }
  | .disconnect =>
      if message.headers.get "Content-Disposition".toList = some "linger".toList then r
      else r.disconnect .serverNotice
  | .authRequest | .unknown _ => r

def ReaderTask.parse (overflow : Bool) (r : ReaderTask) : ReaderTask :=
  match r.parser.parseMessage X with
  | (.ok (some message), parser) =>
      ReaderTask.handle X overflow message
        { r with parser := parser, messages := r.messages ++ [message] }
  | (.ok none, parser) => { r with parser := parser, pc := .reading }
  | (.error e, parser) => { r with parser := parser }.disconnect (.ioError e.display)

inductive ReadOutcome where
  | eof
  | data (chunk : Bytes)
  | error (error : Str)
  | timedOut

def SOCKET_BUF_SIZE : Nat := 65536

/-- The read buffer bounds a chunk, and an empty one is the end of the stream. -/
def ReadOutcome.wellFormed : ReadOutcome → Bool
  | .data chunk => chunk ≠ [] ∧ chunk.length ≤ SOCKET_BUF_SIZE
  | _ => true

/-- The branches on a read; the clock counts nanoseconds. -/
def ReaderTask.read (now : Nat) (livenessTimeoutMs : UInt64) (outcome : ReadOutcome)
    (r : ReaderTask) : ReaderTask :=
  match outcome with
  | .eof => r.disconnect .connectionClosed
  | .data chunk =>
      let r := { r with lastRecv := now }
      match r.parser.addData chunk with
      | (.ok _, parser) => { r with parser := parser, pc := .parsing }
      | (.error e, parser) => { r with parser := parser }.disconnect (.ioError e.display)
  | .error e => r.disconnect (.ioError e)
  | .timedOut =>
      if 0 < livenessTimeoutMs ∧ livenessTimeoutMs.toNat * 10 ^ 6 < now - r.lastRecv then
        r.disconnect .heartbeatExpired
      else { r with pc := .parsing }

/-! ## The system -/

structure Connection where
  reader : ReaderTask
  delivery : Delivery
  clients : Clients
  livenessTimeoutMs : UInt64
  now : Nat

inductive Act where
  | reader
  | read (outcome : ReadOutcome)
  | panic
  | call (id : Nat) (op : CallOp)
  | disconnect
  | setLivenessTimeout (millis : Nat)
  | setCommandTimeout (millis : Nat)
  | recv
  | dropStream
  | tick (nanos : Nat)

namespace Connection

/-- `split_and_spawn_with_options` with the parser that the handshake leaves. -/
def init (eventQueueSize : Nat) (parser : EslParser) : Connection where
  reader := ⟨.parsing, parser, 0, .connected, []⟩
  delivery := ⟨.empty (max eventQueueSize 1) (by omega), false, 0, []⟩
  clients := .init
  livenessTimeoutMs := 0
  now := 0

/-- The number of the event message that the reader is dispatching. -/
def eventNumber (s : Connection) : Nat := s.reader.eventMessages.length

/-- The next operation of the reader task; a read waits for the network. -/
def readerStep (s : Connection) : Option Connection :=
  match s.reader.pc with
  | .parsing => some { s with reader := s.reader.parse X s.delivery.eventOverflow }
  | .notifying result =>
      match s.delivery.notify with
      | (.closed, delivery) =>
          some { s with delivery := delivery, reader := { s.reader with pc := .returning } }
      | (_, delivery) =>
          some { s with delivery := delivery, reader := { s.reader with pc := .sending result } }
  | .sending result =>
      match s.delivery.send s.eventNumber result with
      | (.closed, delivery) =>
          some { s with delivery := delivery, reader := { s.reader with pc := .returning } }
      | (_, delivery) =>
          some { s with delivery := delivery, reader := { s.reader with pc := .parsing } }
  | .replying message => some { s with
      clients := s.clients.deliver message
      reader := { s.reader with pc := .parsing } }
  | .returning => some { s with
      reader := { s.reader with pc := .done }
      delivery := { s.delivery with channel := s.delivery.channel.dropSender } }
  | .panicked => some { s with
      reader := { s.reader with
        pc := .done
        status := .disconnected (.ioError "reader task panicked".toList) } }
  | .reading | .done => none

/-- Only the parser and its buffer run code that could panic; the unwinding drops
the locals of the loop. -/
def panicStep (s : Connection) : Option Connection :=
  match s.reader.pc with
  | .parsing | .reading => some { s with
      reader := { s.reader with pc := .panicked }
      delivery := { s.delivery with channel := s.delivery.channel.dropSender } }
  | _ => none

def readStep (s : Connection) (outcome : ReadOutcome) : Option Connection :=
  match s.reader.pc with
  | .reading =>
      if outcome.wellFormed then
        some { s with reader := s.reader.read s.now s.livenessTimeoutMs outcome }
      else none
  | _ => none

def step (s : Connection) : Act → Option Connection
  | .reader => s.readerStep X
  | .read outcome => s.readStep outcome
  | .panic => s.panicStep
  | .call id op => (s.clients.step s.reader.status id op).map fun c ↦ { s with clients := c }
  | .disconnect => s.clients.disconnect.map fun c ↦ { s with clients := c }
  | .setLivenessTimeout millis => some { s with livenessTimeoutMs := .ofNat millis }
  | .setCommandTimeout millis =>
      some { s with clients := { s.clients with commandTimeoutMs := .ofNat millis } }
  | .recv => s.delivery.channel.recv.map fun channel ↦
      { s with delivery := { s.delivery with channel := channel } }
  | .dropStream =>
      some { s with delivery := { s.delivery with channel := s.delivery.channel.dropReceiver } }
  | .tick nanos => some { s with now := s.now + nanos }

/-! ## The rules of the system -/

/-- The rules that `step` follows. -/
inductive Effect (s : Connection) : Act → Connection → Prop
  | parsed : s.reader.pc = .parsing →
      Effect s .reader { s with reader := s.reader.parse X s.delivery.eventOverflow }
  | noticed {result r delivery} : s.reader.pc = .notifying result →
      s.delivery.notify = (r, delivery) → r ≠ .closed →
      Effect s .reader
        { s with delivery := delivery, reader := { s.reader with pc := .sending result } }
  | noticeRefused {result delivery} : s.reader.pc = .notifying result →
      s.delivery.notify = (.closed, delivery) →
      Effect s .reader
        { s with delivery := delivery, reader := { s.reader with pc := .returning } }
  | dispatched {result r delivery} : s.reader.pc = .sending result →
      s.delivery.send s.eventNumber result = (r, delivery) → r ≠ .closed →
      Effect s .reader
        { s with delivery := delivery, reader := { s.reader with pc := .parsing } }
  | itemRefused {result delivery} : s.reader.pc = .sending result →
      s.delivery.send s.eventNumber result = (.closed, delivery) →
      Effect s .reader
        { s with delivery := delivery, reader := { s.reader with pc := .returning } }
  | replied {message} : s.reader.pc = .replying message →
      Effect s .reader
        { s with
          clients := s.clients.deliver message
          reader := { s.reader with pc := .parsing } }
  | returned : s.reader.pc = .returning →
      Effect s .reader
        { s with
          reader := { s.reader with pc := .done }
          delivery := { s.delivery with channel := s.delivery.channel.dropSender } }
  | unwound : s.reader.pc = .panicked →
      Effect s .reader
        { s with reader := { s.reader with
            pc := .done
            status := .disconnected (.ioError "reader task panicked".toList) } }
  | read {outcome} : s.reader.pc = .reading → outcome.wellFormed = true →
      Effect s (.read outcome)
        { s with reader := s.reader.read s.now s.livenessTimeoutMs outcome }
  | panicked : s.reader.pc = .parsing ∨ s.reader.pc = .reading →
      Effect s .panic
        { s with
          reader := { s.reader with pc := .panicked }
          delivery := { s.delivery with channel := s.delivery.channel.dropSender } }
  | called {id op clients} : Clients.Effect s.reader.status s.clients id op clients →
      Effect s (.call id op) { s with clients := clients }
  | shutdown : s.clients.writerLock = none →
      Effect s .disconnect { s with clients := { s.clients with writeShutdown := true } }
  | livenessSet {millis} :
      Effect s (.setLivenessTimeout millis) { s with livenessTimeoutMs := .ofNat millis }
  | commandTimeoutSet {millis} :
      Effect s (.setCommandTimeout millis)
        { s with clients := { s.clients with commandTimeoutMs := .ofNat millis } }
  | received {channel} : s.delivery.channel.recv = some channel →
      Effect s .recv { s with delivery := { s.delivery with channel := channel } }
  | streamDropped :
      Effect s .dropStream
        { s with delivery := { s.delivery with channel := s.delivery.channel.dropReceiver } }
  | ticked {nanos} : Effect s (.tick nanos) { s with now := s.now + nanos }

theorem effect_of_readerStep {s t : Connection} (h : s.readerStep X = some t) :
    Effect X s .reader t := by
  unfold readerStep at h
  split at h
  · rename_i hpc
    obtain rfl := Option.some.inj h
    exact .parsed hpc
  · rename_i result hpc
    split at h
    · rename_i delivery hnotify
      obtain rfl := Option.some.inj h
      exact .noticeRefused hpc hnotify
    · rename_i r delivery hclosed hnotify
      obtain rfl := Option.some.inj h
      exact .noticed hpc hnotify hclosed
  · rename_i result hpc
    split at h
    · rename_i delivery hsend
      obtain rfl := Option.some.inj h
      exact .itemRefused hpc hsend
    · rename_i r delivery hclosed hsend
      obtain rfl := Option.some.inj h
      exact .dispatched hpc hsend hclosed
  · rename_i message hpc
    obtain rfl := Option.some.inj h
    exact .replied hpc
  · rename_i hpc
    obtain rfl := Option.some.inj h
    exact .returned hpc
  · rename_i hpc
    obtain rfl := Option.some.inj h
    exact .unwound hpc
  · cases h
  · cases h

theorem effect_of_step {s t : Connection} {a : Act} (h : s.step X a = some t) :
    Effect X s a t := by
  cases a with
  | reader => exact effect_of_readerStep X h
  | read outcome =>
      simp only [step, readStep] at h
      split at h
      · rename_i hpc
        split at h
        · rename_i hformed
          obtain rfl := Option.some.inj h
          exact .read hpc hformed
        · cases h
      · cases h
  | panic =>
      simp only [step, panicStep] at h
      split at h
      · rename_i hpc
        obtain rfl := Option.some.inj h
        exact .panicked (Or.inl hpc)
      · rename_i hpc
        obtain rfl := Option.some.inj h
        exact .panicked (Or.inr hpc)
      · cases h
  | call id op =>
      obtain ⟨clients, hclients, rfl⟩ := Option.map_eq_some_iff.mp h
      exact .called (Clients.effect_of_step hclients)
  | disconnect =>
      obtain ⟨clients, hclients, rfl⟩ := Option.map_eq_some_iff.mp h
      unfold Clients.disconnect at hclients
      split at hclients
      · rename_i hlock
        obtain rfl := Option.some.inj hclients
        exact .shutdown hlock
      · cases hclients
  | setLivenessTimeout millis =>
      obtain rfl := Option.some.inj h
      exact .livenessSet
  | setCommandTimeout millis =>
      obtain rfl := Option.some.inj h
      exact .commandTimeoutSet
  | recv =>
      obtain ⟨channel, hrecv, rfl⟩ := Option.map_eq_some_iff.mp h
      exact .received hrecv
  | dropStream =>
      obtain rfl := Option.some.inj h
      exact .streamDropped
  | tick nanos =>
      obtain rfl := Option.some.inj h
      exact .ticked

end Connection

/-! ## What the operations do -/

namespace Delivery

variable {d d' : Delivery} {r : BoundedChannel.SendResult}

theorem notify_cases (h : d.notify = (r, d')) :
    (r = .ok ∧ d.channel.receiverAlive = true ∧ d'.channel.receiverAlive = true ∧
        d.channel.queue.length < d.channel.capacity ∧
        d'.channel.log = d.channel.log ++ [.notice] ∧
        d'.channel.received = d.channel.received ∧ d'.eventOverflow = false ∧
        d'.droppedEventCount = d.droppedEventCount ∧ d'.dropped = d.dropped) ∨
      (r = .full ∧ d' = d ∧ d.channel.receiverAlive = true ∧
        d.channel.queue.length = d.channel.capacity) ∨
      (r = .closed ∧ d' = d ∧ d.channel.receiverAlive = false) := by
  unfold notify at h
  rcases d.channel.trySend_cases .notice with
    ⟨hok, halive, hspace, hlog, hreceived, halive'⟩ | ⟨htry, halive, hfull⟩ | ⟨htry, halive⟩
  · generalize d.channel.trySend .notice = sent at *
    obtain ⟨r', channel⟩ := sent
    obtain rfl : r' = .ok := hok
    obtain ⟨rfl, rfl⟩ := Prod.mk.inj h
    exact Or.inl ⟨rfl, halive, halive', hspace, hlog, hreceived, rfl, rfl, rfl⟩
  · rw [htry] at h
    obtain ⟨rfl, rfl⟩ := Prod.mk.inj h
    exact Or.inr (Or.inl ⟨rfl, rfl, halive, hfull⟩)
  · rw [htry] at h
    obtain ⟨rfl, rfl⟩ := Prod.mk.inj h
    exact Or.inr (Or.inr ⟨rfl, rfl, halive⟩)

theorem of_notify_closed (h : d.notify = (.closed, d')) :
    d' = d ∧ d.channel.receiverAlive = false := by
  rcases notify_cases h with ⟨h, -⟩ | ⟨h, -⟩ | ⟨-, hd, hdead⟩
  · cases h
  · cases h
  · exact ⟨hd, hdead⟩

theorem send_cases {number : Nat} {result : EslResult EslEvent}
    (h : d.send number result = (r, d')) :
    (r = .ok ∧ d.channel.receiverAlive = true ∧ d'.channel.receiverAlive = true ∧
        d.channel.queue.length < d.channel.capacity ∧
        d'.channel.log = d.channel.log ++ [.item number result] ∧
        d'.channel.received = d.channel.received ∧ d'.eventOverflow = d.eventOverflow ∧
        d'.droppedEventCount = d.droppedEventCount ∧ d'.dropped = d.dropped) ∨
      (r = .full ∧ d.channel.receiverAlive = true ∧
        d.channel.queue.length = d.channel.capacity ∧
        d' = ⟨d.channel, true, d.droppedEventCount + 1, d.dropped ++ [number]⟩) ∨
      (r = .closed ∧ d' = d ∧ d.channel.receiverAlive = false) := by
  unfold send at h
  rcases d.channel.trySend_cases (.item number result) with
    ⟨hok, halive, hspace, hlog, hreceived, halive'⟩ | ⟨htry, halive, hfull⟩ | ⟨htry, halive⟩
  · generalize d.channel.trySend (.item number result) = sent at *
    obtain ⟨r', channel⟩ := sent
    obtain rfl : r' = .ok := hok
    obtain ⟨rfl, rfl⟩ := Prod.mk.inj h
    exact Or.inl ⟨rfl, halive, halive', hspace, hlog, hreceived, rfl, rfl, rfl⟩
  · rw [htry] at h
    obtain ⟨rfl, rfl⟩ := Prod.mk.inj h
    exact Or.inr (Or.inl ⟨rfl, halive, hfull, rfl⟩)
  · rw [htry] at h
    obtain ⟨rfl, rfl⟩ := Prod.mk.inj h
    exact Or.inr (Or.inr ⟨rfl, rfl, halive⟩)

theorem of_send_closed {number : Nat} {result : EslResult EslEvent}
    (h : d.send number result = (.closed, d')) : d' = d ∧ d.channel.receiverAlive = false := by
  rcases send_cases h with ⟨h, -⟩ | ⟨h, -⟩ | ⟨-, hd, hdead⟩
  · cases h
  · cases h
  · exact ⟨hd, hdead⟩

theorem channel_notify (h : d.notify = (r, d')) :
    d'.channel = (d.channel.trySend .notice).2 := by
  unfold notify at h
  split at h
  all_goals
    rename_i htry
    obtain ⟨-, rfl⟩ := Prod.mk.inj h
    rw [htry]

theorem channel_send {number : Nat} {result : EslResult EslEvent}
    (h : d.send number result = (r, d')) :
    d'.channel = (d.channel.trySend (.item number result)).2 := by
  unfold send at h
  split at h
  all_goals
    rename_i htry
    obtain ⟨-, rfl⟩ := Prod.mk.inj h
    rw [htry]

end Delivery

/-- The results that the reader is dispatching: at most one. -/
def ReaderPc.inFlight : ReaderPc → List (EslResult EslEvent)
  | .notifying result | .sending result => [result]
  | _ => []

namespace ReaderTask

variable {X} {r : ReaderTask}

/-- What a call of `parse_message` and the branches on its result do. -/
theorem parse_cases (overflow : Bool) (hpc : r.pc = .parsing) :
    (∃ m, m.messageType = .event ∧ (r.parse X overflow).messages = r.messages ++ [m] ∧
        (r.parse X overflow).status = r.status ∧
        (r.parse X overflow).pc =
          if overflow then .notifying (m.eventResult X) else .sending (m.eventResult X)) ∨
      (∃ m, (m.messageType = .commandReply ∨ m.messageType = .apiResponse) ∧
        (r.parse X overflow).messages = r.messages ++ [m] ∧
        (r.parse X overflow).status = r.status ∧ (r.parse X overflow).pc = .replying m) ∨
      (∃ ms, (∀ m ∈ ms, m.messageType ≠ .event ∧ m.messageType ≠ .commandReply ∧
          m.messageType ≠ .apiResponse) ∧
        (r.parse X overflow).messages = r.messages ++ ms ∧
        ((r.parse X overflow).status = r.status ∧
            ((r.parse X overflow).pc = .parsing ∨ (r.parse X overflow).pc = .reading) ∨
          (∃ reason, (r.parse X overflow).status = .disconnected reason) ∧
            (r.parse X overflow).pc = .returning)) := by
  unfold parse
  split
  · rename_i message parser hparse
    unfold handle
    split
    · rename_i htype
      refine Or.inl ⟨message, htype, ?_⟩
      split <;> exact ⟨rfl, rfl, rfl⟩
    · rename_i htype
      exact Or.inr (Or.inl ⟨message, Or.inl htype, rfl, rfl, rfl⟩)
    · rename_i htype
      exact Or.inr (Or.inl ⟨message, Or.inr htype, rfl, rfl, rfl⟩)
    · rename_i htype
      refine Or.inr (Or.inr ⟨[message], by simp [htype], ?_⟩)
      split
      · exact ⟨rfl, Or.inl ⟨rfl, Or.inl hpc⟩⟩
      · exact ⟨rfl, Or.inr ⟨⟨_, rfl⟩, rfl⟩⟩
    · rename_i htype
      exact Or.inr (Or.inr ⟨[message], by simp [htype], rfl, Or.inl ⟨rfl, Or.inl hpc⟩⟩)
    · rename_i contentType htype
      exact Or.inr (Or.inr ⟨[message], by simp [htype], rfl, Or.inl ⟨rfl, Or.inl hpc⟩⟩)
  · refine Or.inr (Or.inr ⟨[], by simp, ?_, Or.inl ⟨rfl, Or.inr rfl⟩⟩)
    simp
  · refine Or.inr (Or.inr ⟨[], by simp, ?_, Or.inr ⟨⟨_, rfl⟩, rfl⟩⟩)
    simp [disconnect]

theorem read_cases (now : Nat) (livenessTimeoutMs : UInt64) (outcome : ReadOutcome) :
    (r.read now livenessTimeoutMs outcome).messages = r.messages ∧
      ((r.read now livenessTimeoutMs outcome).status = r.status ∧
          (r.read now livenessTimeoutMs outcome).pc = .parsing ∨
        (∃ reason, (r.read now livenessTimeoutMs outcome).status = .disconnected reason) ∧
          (r.read now livenessTimeoutMs outcome).pc = .returning) := by
  unfold read
  split
  · exact ⟨rfl, Or.inr ⟨⟨_, rfl⟩, rfl⟩⟩
  · dsimp only
    split
    · exact ⟨rfl, Or.inl ⟨rfl, rfl⟩⟩
    · exact ⟨rfl, Or.inr ⟨⟨_, rfl⟩, rfl⟩⟩
  · exact ⟨rfl, Or.inr ⟨⟨_, rfl⟩, rfl⟩⟩
  · split
    · exact ⟨rfl, Or.inr ⟨⟨_, rfl⟩, rfl⟩⟩
    · exact ⟨rfl, Or.inl ⟨rfl, rfl⟩⟩

end ReaderTask

namespace Connection

variable {X} {s t : Connection} {a : Act}

theorem receiverAlive_of_step (hstep : s.step X a = some t)
    (halive : t.delivery.channel.receiverAlive = true) :
    s.delivery.channel.receiverAlive = true := by
  cases effect_of_step X hstep with
  | noticed _ hnotify hopen =>
      rcases Delivery.notify_cases hnotify with ⟨-, h, -⟩ | ⟨-, -, h, -⟩ | ⟨hclosed, -⟩
      · exact h
      · exact h
      · exact absurd hclosed hopen
  | noticeRefused _ hnotify =>
      obtain ⟨rfl, -⟩ := Delivery.of_notify_closed hnotify
      exact halive
  | dispatched _ hsend hopen =>
      rcases Delivery.send_cases hsend with ⟨-, h, -⟩ | ⟨-, h, -⟩ | ⟨hclosed, -⟩
      · exact h
      · exact h
      · exact absurd hclosed hopen
  | itemRefused _ hsend =>
      obtain ⟨rfl, -⟩ := Delivery.of_send_closed hsend
      exact halive
  | received hrecv =>
      obtain ⟨-, -, -, -, -, -, hsame, -⟩ := BoundedChannel.of_recv hrecv
      exact hsame ▸ halive
  | streamDropped => cases halive
  | parsed _ | replied _ | returned _ | unwound _ | read _ _ | panicked _ | called _ | shutdown _
  | livenessSet | commandTimeoutSet | ticked => exact halive

/-- All that a step can do to the clients. -/
theorem clients_of_step (P : Clients → Prop) (hstep : s.step X a = some t) (hsame : P s.clients)
    (hreplied : ∀ message, a = .reader → s.reader.pc = .replying message →
      P (s.clients.deliver message))
    (hcalled : ∀ id op clients, a = .call id op →
      Clients.Effect s.reader.status s.clients id op clients → P clients)
    (hshutdown : P { s.clients with writeShutdown := true })
    (htimeout : ∀ millis, P { s.clients with commandTimeoutMs := millis }) : P t.clients := by
  cases effect_of_step X hstep with
  | replied hpc => exact hreplied _ rfl hpc
  | called heffect => exact hcalled _ _ _ rfl heffect
  | shutdown _ => exact hshutdown
  | commandTimeoutSet => exact htimeout _
  | parsed _ | noticed _ _ _ | noticeRefused _ _ | dispatched _ _ _ | itemRefused _ _ | returned _
  | unwound _ | read _ _ | panicked _ | livenessSet | received _ | streamDropped | ticked =>
      exact hsame

end Connection

end FreeswitchEsl
