import FreeswitchEsl.Connection.Recovery
import FreeswitchEsl.Connection.Replies
import FreeswitchEsl.Connection.Shutdown

/-!
# The reason for a disconnect

The status changes once, when the reader leaves its loop, and names what made it
leave.  Only an end of stream that a client has asked for is not told apart from
one that the server has caused.
-/

namespace FreeswitchEsl

open Text Transition

variable (X : Crates)

/-! ## Causes -/

/-- What ends the connection, and the reason that it should be given. -/
inductive Connection.Causes (s : Connection) : Act → DisconnectReason → Prop
  | serverNotice {message parser} : s.reader.pc = .parsing →
      s.reader.parser.parseMessage X = (.ok (some message), parser) →
      message.messageType = .disconnect →
      message.headers.get "Content-Disposition".toList ≠ some "linger".toList →
      Causes s .reader .serverNotice
  | parseError {e parser} : s.reader.pc = .parsing →
      s.reader.parser.parseMessage X = (.error e, parser) →
      Causes s .reader (.ioError e.display)
  | bufferError {chunk e parser} : s.reader.pc = .reading →
      s.reader.parser.addData chunk = (.error e, parser) →
      Causes s (.read (.data chunk)) (.ioError e.display)
  | readError {e} : s.reader.pc = .reading → Causes s (.read (.error e)) (.ioError e)
  | heartbeatExpired : s.reader.pc = .reading → 0 < s.livenessTimeoutMs →
      s.livenessTimeoutMs.toNat * 10 ^ 6 < s.now - s.reader.lastRecv →
      Causes s (.read .timedOut) .heartbeatExpired
  | clientRequested : s.reader.pc = .reading → s.clients.writeShutdown = true →
      Causes s (.read .eof) .clientRequested
  | connectionClosed : s.reader.pc = .reading → s.clients.writeShutdown = false →
      Causes s (.read .eof) .connectionClosed

def Act.panics : Act → Bool
  | .panic => true
  | _ => false

/-- The event stream is kept, and the reader does not panic. -/
def Unbroken (s : Connection) (a : Act) : Prop := StreamKept s a ∧ a.panics = false

/-- Moreover no stream ends behind a `disconnect`. -/
def EndsUnasked (s : Connection) (a : Act) : Prop :=
  Unbroken s a ∧ match a with
    | .read .eof => s.clients.writeShutdown = false
    | _ => True

instance (s : Connection) (a : Act) : Decidable (Unbroken s a) :=
  inferInstanceAs (Decidable (StreamKept s a ∧ a.panics = false))

instance (s : Connection) : (a : Act) → Decidable (EndsUnasked s a)
  | .read .eof => inferInstanceAs (Decidable (Unbroken s _ ∧ s.clients.writeShutdown = false))
  | .read (.data _) | .read (.error _) | .read .timedOut | .reader | .panic | .call _ _
  | .disconnect | .setLivenessTimeout _ | .setCommandTimeout _ | .recv | .dropStream | .tick _ =>
      decidable_of_iff (Unbroken s _) (and_iff_left trivial).symm

namespace Connection

/-- `recv` returns `None`. -/
def streamEnded (s : Connection) : Prop :=
  s.delivery.channel.receiverAlive = true ∧ s.delivery.channel.queue = [] ∧
    s.delivery.channel.senderAlive = false

/-- The status after a run tells how it went. -/
structure StatusTrue (s : Connection) (as : List Act) (t : Connection) : Prop where
  cause : ∀ reason, t.status = .disconnected reason ↔
    Happens (step X) (fun u a ↦ Causes X u a reason) s as
  once : ∀ bs cs u, as = bs ++ cs → run (step X) s bs = some u →
    u.status = .connected ∨ t.status = u.status
  closed : t.delivery.channel.senderAlive = false → t.status ≠ .connected
  received : t.streamEnded → ∀ bs cs u, as = bs ++ cs → run (step X) s bs = some u →
    u.delivery.channel.log <+: t.delivery.channel.received

/-- The reader is at work, and the sender of the event channel is there. -/
def Running (s : Connection) : Prop :=
  s.status = .connected ∧ s.reader.pc.live = true ∧ s.delivery.channel.senderAlive = true

/-- The reader has left its loop with a reason. -/
def Stopped (s : Connection) (reason : DisconnectReason) : Prop :=
  s.status = .disconnected reason ∧ s.reader.pc.stopped = true

variable {X} {s t : Connection} {a : Act} {reason : DisconnectReason}

/-! ## Steps -/

theorem Causes.reason_eq {reason' : DisconnectReason} (h : Causes X s a reason)
    (h' : Causes X s a reason') : reason = reason' := by
  cases h with
  | serverNotice _ hparse =>
      cases h' with
      | serverNotice => rfl
      | parseError _ hparse' => cases hparse.symm.trans hparse'
  | parseError _ hparse =>
      cases h' with
      | serverNotice _ hparse' => cases hparse.symm.trans hparse'
      | parseError _ hparse' =>
          cases hparse.symm.trans hparse'
          rfl
  | bufferError _ hadd =>
      cases h' with
      | bufferError _ hadd' =>
          cases hadd.symm.trans hadd'
          rfl
  | readError | heartbeatExpired =>
      cases h'
      rfl
  | clientRequested _ hshutdown =>
      cases h' with
      | clientRequested => rfl
      | connectionClosed _ hopen => cases hshutdown.symm.trans hopen
  | connectionClosed _ hopen =>
      cases h' with
      | clientRequested _ hshutdown => cases hshutdown.symm.trans hopen
      | connectionClosed => rfl

theorem Causes.pc (h : Causes X s a reason) : s.reader.pc = .parsing ∨ s.reader.pc = .reading := by
  cases h <;> simp [*]

theorem not_causes (hparsing : s.reader.pc ≠ .parsing) (hreading : s.reader.pc ≠ .reading)
    (reason : DisconnectReason) : ¬ Causes X s a reason :=
  fun h ↦ h.pc.elim hparsing hreading

theorem not_causes_of_stopped (h : s.Stopped reason) (reason' : DisconnectReason) :
    ¬ Causes X s a reason' := by
  have hstopped := h.2
  apply not_causes
  all_goals
    intro hpc
    rw [hpc] at hstopped
    cases hstopped

/-- A reason stays, and nothing causes another one. -/
theorem stopped_step (h : s.Stopped reason) (hstep : s.step X a = some t) : t.Stopped reason := by
  have hpc : ∀ pc, s.reader.pc = pc → pc.stopped = true := fun pc hpc ↦ hpc ▸ h.2
  cases Connection.effect_of_step X hstep with
  | parsed hparsing => cases hpc _ hparsing
  | noticed hnotifying _ _ => cases hpc _ hnotifying
  | noticeRefused hnotifying _ => cases hpc _ hnotifying
  | dispatched hsending _ _ => cases hpc _ hsending
  | itemRefused hsending _ => cases hpc _ hsending
  | replied hreplying => cases hpc _ hreplying
  | returned _ => exact ⟨h.1, rfl⟩
  | unwound hpanicked => cases hpc _ hpanicked
  | read hreading _ => cases hpc _ hreading
  | panicked hrunning =>
      rcases hrunning with hparsing | hreading
      · cases hpc _ hparsing
      · cases hpc _ hreading
  | called _ | shutdown _ | livenessSet | commandTimeoutSet | received _ | streamDropped | ticked =>
      exact h

/-- A call of `parse_message` ends the loop exactly with a cause. -/
theorem parse_causes (hpc : s.reader.pc = .parsing) (overflow : Bool) :
    ((s.reader.parse X overflow).pc.live = true ∧
        (s.reader.parse X overflow).status = s.reader.status ∧
        ∀ reason, ¬ Causes X s .reader reason) ∨
      ∃ reason, (s.reader.parse X overflow).pc = .returning ∧
        (s.reader.parse X overflow).status = .disconnected reason ∧
        Causes X s .reader reason := by
  unfold ReaderTask.parse
  cases hparse : s.reader.parser.parseMessage X with
  | mk result parser =>
      rcases result with e | _ | message
      · exact Or.inr ⟨_, rfl, rfl, .parseError hpc hparse⟩
      · refine Or.inl ⟨rfl, rfl, fun reason hcauses ↦ ?_⟩
        cases hcauses with
        | serverNotice _ hparse' => cases hparse.symm.trans hparse'
        | parseError _ hparse' => cases hparse.symm.trans hparse'
      · have hignored : (message.messageType = .disconnect →
            message.headers.get "Content-Disposition".toList = some "linger".toList) →
            ∀ reason, ¬ Causes X s .reader reason := by
          rintro hlinger reason hcauses
          cases hcauses with
          | serverNotice _ hparse' htype hdisposition =>
              cases hparse.symm.trans hparse'
              exact hdisposition (hlinger htype)
          | parseError _ hparse' => cases hparse.symm.trans hparse'
        have hother : message.messageType ≠ .disconnect → ∀ reason, ¬ Causes X s .reader reason :=
          fun hne ↦ hignored fun htype ↦ absurd htype hne
        have hlive : s.reader.pc.live = true := by
          rw [hpc]
          rfl
        dsimp only [ReaderTask.handle]
        split
        · rename_i htype
          have hnone := hother (by simp [htype])
          split <;> exact Or.inl ⟨rfl, rfl, hnone⟩
        · rename_i htype
          exact Or.inl ⟨rfl, rfl, hother (by simp [htype])⟩
        · rename_i htype
          exact Or.inl ⟨rfl, rfl, hother (by simp [htype])⟩
        · rename_i htype
          split
          · rename_i hlinger
            exact Or.inl ⟨hlive, rfl, hignored fun _ ↦ hlinger⟩
          · rename_i hdisposition
            exact Or.inr ⟨_, rfl, rfl, .serverNotice hpc hparse htype hdisposition⟩
        · rename_i htype
          exact Or.inl ⟨hlive, rfl, hother (by simp [htype])⟩
        · rename_i htype
          exact Or.inl ⟨hlive, rfl, hother (by simp [htype])⟩

/-- A read ends the loop exactly with a cause, unless a client has asked for the end. -/
theorem read_causes (hpc : s.reader.pc = .reading) {outcome : ReadOutcome}
    (hunasked : EndsUnasked s (.read outcome)) :
    ((s.reader.read s.now s.livenessTimeoutMs outcome).pc.live = true ∧
        (s.reader.read s.now s.livenessTimeoutMs outcome).status = s.reader.status ∧
        ∀ reason, ¬ Causes X s (.read outcome) reason) ∨
      ∃ reason, (s.reader.read s.now s.livenessTimeoutMs outcome).pc = .returning ∧
        (s.reader.read s.now s.livenessTimeoutMs outcome).status = .disconnected reason ∧
        Causes X s (.read outcome) reason := by
  unfold ReaderTask.read
  cases outcome with
  | eof => exact Or.inr ⟨_, rfl, rfl, .connectionClosed hpc hunasked.2⟩
  | data chunk =>
      dsimp only
      cases hadd : s.reader.parser.addData chunk with
      | mk result parser =>
          cases result with
          | ok =>
              refine Or.inl ⟨rfl, rfl, fun reason hcauses ↦ ?_⟩
              cases hcauses with
              | bufferError _ hadd' => cases hadd.symm.trans hadd'
          | error e => exact Or.inr ⟨_, rfl, rfl, .bufferError hpc hadd⟩
  | error e => exact Or.inr ⟨_, rfl, rfl, .readError hpc⟩
  | timedOut =>
      dsimp only
      split
      · rename_i hexpired
        exact Or.inr ⟨_, rfl, rfl, .heartbeatExpired hpc hexpired.1 hexpired.2⟩
      · rename_i hnot
        refine Or.inl ⟨rfl, rfl, fun reason hcauses ↦ ?_⟩
        cases hcauses with
        | heartbeatExpired _ hpos hexceeded => exact hnot ⟨hpos, hexceeded⟩

/-- A step of a running connection keeps it running, or stops it with the cause. -/
theorem running_step (h : s.Running) (hunasked : EndsUnasked s a)
    (hstep : s.step X a = some t) :
    (t.Running ∧ ∀ reason, ¬ Causes X s a reason) ∨
      ∃ reason, t.Stopped reason ∧ Causes X s a reason := by
  obtain ⟨hstatus, hlive, hsender⟩ := h
  have hkept : StreamKept s a := hunasked.1.1
  cases Connection.effect_of_step X hstep with
  | parsed hpc =>
      rcases parse_causes (X := X) hpc s.delivery.eventOverflow with
        ⟨hlive', hsame, hnone⟩ | ⟨reason, hpc', hstatus', hcauses⟩
      · exact Or.inl ⟨⟨hsame.trans hstatus, hlive', hsender⟩, hnone⟩
      · exact Or.inr ⟨reason, ⟨hstatus', by rw [hpc']; rfl⟩, hcauses⟩
  | noticed hpc hnotify _ =>
      refine Or.inl ⟨⟨hstatus, rfl, ?_⟩, not_causes (by simp [hpc]) (by simp [hpc])⟩
      rw [Delivery.channel_notify hnotify, BoundedChannel.senderAlive_trySend]
      exact hsender
  | noticeRefused hpc hnotify => exact absurd hnotify (hkept.notify_ne_closed hpc)
  | dispatched hpc hsend _ =>
      refine Or.inl ⟨⟨hstatus, rfl, ?_⟩, not_causes (by simp [hpc]) (by simp [hpc])⟩
      rw [Delivery.channel_send hsend, BoundedChannel.senderAlive_trySend]
      exact hsender
  | itemRefused hpc hsend => exact absurd hsend (hkept.send_ne_closed hpc)
  | replied hpc =>
      exact Or.inl ⟨⟨hstatus, rfl, hsender⟩, not_causes (by simp [hpc]) (by simp [hpc])⟩
  | returned hpc | unwound hpc =>
      rw [hpc] at hlive
      cases hlive
  | read hpc _ =>
      rcases read_causes (X := X) hpc hunasked with
        ⟨hlive', hsame, hnone⟩ | ⟨reason, hpc', hstatus', hcauses⟩
      · exact Or.inl ⟨⟨hsame.trans hstatus, hlive', hsender⟩, hnone⟩
      · exact Or.inr ⟨reason, ⟨hstatus', by rw [hpc']; rfl⟩, hcauses⟩
  | panicked _ => cases hunasked.1.2
  | received hrecv =>
      refine Or.inl ⟨⟨hstatus, hlive, ?_⟩, fun reason h ↦ by cases h⟩
      exact (BoundedChannel.senderAlive_of_recv hrecv).trans hsender
  | called _ | shutdown _ | livenessSet | commandTimeoutSet | streamDropped | ticked =>
      exact Or.inl ⟨⟨hstatus, hlive, hsender⟩, fun reason h ↦ by cases h⟩

/-! ## Runs -/

theorem stopped_run {as : List Act} (h : s.Stopped reason) (hrun : run (step X) s as = some t) :
    t.Stopped reason ∧
      ∀ reason', ¬ Happens (step X) (fun u a ↦ Causes X u a reason') s as := by
  induction as generalizing s with
  | nil =>
      obtain rfl : s = t := Option.some.inj hrun
      exact ⟨h, fun _ ↦ not_false⟩
  | cons a as ih =>
      obtain ⟨u, hu, hrest⟩ := run_cons_eq_some.mp hrun
      obtain ⟨hstopped, hnone⟩ := ih (stopped_step h hu) hrest
      refine ⟨hstopped, fun reason' ↦ ?_⟩
      rintro (hcauses | ⟨v, hv, hlater⟩)
      · exact not_causes_of_stopped h reason' hcauses
      · obtain rfl := Option.some.inj (hu.symm.trans hv)
        exact hnone reason' hlater

/-- A run keeps the connection running, or stops it with the only cause in it. -/
theorem running_run {as : List Act} (h : s.Running) (hrun : run (step X) s as = some t)
    (hmeets : Meets (step X) EndsUnasked s as) :
    (t.Running ∧ ∀ reason, ¬ Happens (step X) (fun u a ↦ Causes X u a reason) s as) ∨
      ∃ reason, t.Stopped reason ∧
        ∀ reason', Happens (step X) (fun u a ↦ Causes X u a reason') s as ↔ reason' = reason := by
  induction as generalizing s with
  | nil =>
      obtain rfl : s = t := Option.some.inj hrun
      exact Or.inl ⟨h, fun _ ↦ not_false⟩
  | cons a as ih =>
      obtain ⟨u, hu, hrest⟩ := run_cons_eq_some.mp hrun
      have hcons : ∀ reason, Happens (step X) (fun u a ↦ Causes X u a reason) s (a :: as) ↔
          Causes X s a reason ∨ Happens (step X) (fun u a ↦ Causes X u a reason) u as := by
        intro reason
        simp [Happens, hu]
      rcases running_step h hmeets.1 hu with ⟨hrunning, hnone⟩ | ⟨reason, hstopped, hcauses⟩
      · rcases ih hrunning hrest (hmeets.2 u hu) with ⟨ht, hlater⟩ | ⟨reason, ht, hlater⟩
        · exact Or.inl ⟨ht, fun reason ↦ by simp [hcons, hnone, hlater]⟩
        · exact Or.inr ⟨reason, ht, fun reason' ↦ by simp [hcons, hnone, hlater]⟩
      · obtain ⟨ht, hlater⟩ := stopped_run hstopped hrest
        refine Or.inr ⟨reason, ht, fun reason' ↦ ?_⟩
        rw [hcons, or_iff_left (hlater reason')]
        constructor
        · exact fun h' ↦ h'.reason_eq hcauses
        · rintro rfl
          exact hcauses

theorem log_prefix_of_step (hstep : s.step X a = some t)
    (halive : t.delivery.channel.receiverAlive = true) :
    s.delivery.channel.log <+: t.delivery.channel.log := by
  cases Connection.effect_of_step X hstep with
  | noticed _ hnotify _ | noticeRefused _ hnotify =>
      rw [Delivery.channel_notify hnotify]
      exact BoundedChannel.log_prefix_trySend _ _
  | dispatched _ hsend _ | itemRefused _ hsend =>
      rw [Delivery.channel_send hsend]
      exact BoundedChannel.log_prefix_trySend _ _
  | received hrecv =>
      obtain ⟨-, -, -, -, -, hlog, -⟩ := BoundedChannel.of_recv hrecv
      exact hlog ▸ List.prefix_rfl
  | streamDropped => cases halive
  | parsed _ | replied _ | returned _ | unwound _ | read _ _ | panicked _ | called _ | shutdown _
  | livenessSet | commandTimeoutSet | ticked => exact List.prefix_rfl

theorem log_prefix_of_run {as : List Act} (hrun : run (step X) s as = some t)
    (halive : t.delivery.channel.receiverAlive = true) :
    s.delivery.channel.receiverAlive = true ∧
      s.delivery.channel.log <+: t.delivery.channel.log := by
  induction as generalizing s with
  | nil =>
      obtain rfl : s = t := Option.some.inj hrun
      exact ⟨halive, List.prefix_rfl⟩
  | cons a as ih =>
      obtain ⟨u, hu, hrest⟩ := run_cons_eq_some.mp hrun
      obtain ⟨halive', hprefix⟩ := ih hrest
      exact ⟨receiverAlive_of_step hu halive', (log_prefix_of_step hu halive').trans hprefix⟩

end Connection

/-- If the event stream is kept, the reader does not panic, and no stream ends behind
a `disconnect`, then the status changes once, before the event channel is closed, and
to the reason that is the cause. -/
theorem status_true (X : Crates) {eventQueueSize : Nat} {parser : EslParser} {as : List Act}
    {t : Connection}
    (hrun : run (Connection.step X) (.init eventQueueSize parser) as = some t)
    (hmeets : Meets (Connection.step X) EndsUnasked (.init eventQueueSize parser) as) :
    Connection.StatusTrue X (.init eventQueueSize parser) as t := by
  have hinit : (Connection.init eventQueueSize parser).Running := ⟨rfl, rfl, rfl⟩
  have hend := Connection.running_run hinit hrun hmeets
  refine ⟨?_, ?_, ?_, ?_⟩
  · intro reason
    rcases hend with ⟨hrunning, hnone⟩ | ⟨reason', hstopped, hcauses⟩
    · rw [hrunning.1]
      exact iff_of_false ConnectionStatus.noConfusion (hnone reason)
    · rw [hcauses, hstopped.1, ConnectionStatus.disconnected.injEq, eq_comm]
  · rintro bs cs u rfl hu
    obtain ⟨u', hu', hrest⟩ := run_append_eq_some.mp hrun
    obtain rfl := Option.some.inj (hu.symm.trans hu')
    rcases Connection.running_run hinit hu hmeets.of_append.1 with ⟨hrunning, -⟩ | ⟨_, hstopped, -⟩
    · exact Or.inl hrunning.1
    · exact Or.inr ((Connection.stopped_run hstopped hrest).1.1.trans hstopped.1.symm)
  · intro hclosed hconnected
    rcases hend with ⟨hrunning, -⟩ | ⟨_, hstopped, -⟩
    · cases hclosed.symm.trans hrunning.2.2
    · cases hconnected.symm.trans hstopped.1
  · rintro ⟨halive, hempty, -⟩ bs cs u rfl hu
    obtain ⟨u', hu', hrest⟩ := run_append_eq_some.mp hrun
    obtain rfl := Option.some.inj (hu.symm.trans hu')
    have hreceived : t.delivery.channel.log = t.delivery.channel.received := by
      rw [BoundedChannel.log, hempty, List.append_nil]
    rw [← hreceived]
    exact (Connection.log_prefix_of_run hrest halive).2

/-- A client disconnects, and the server closes the stream. -/
def disconnectThenEof : List Act := [.disconnect, .reader, .read .eof]

theorem status_true_eventThenEof :
    ∃ t, run (Connection.step .percentOnly) (.init 1 EslParser.new) eventThenEof = some t ∧
      Connection.StatusTrue .percentOnly (.init 1 EslParser.new) eventThenEof t := by
  have hrun : (run (Connection.step .percentOnly) (.init 1 EslParser.new) eventThenEof).any
      (fun _ ↦ True) = true := by
    decide +kernel
  obtain ⟨t, ht, -⟩ := exists_run_of_any hrun
  refine ⟨t, ht, status_true .percentOnly ht ?_⟩
  decide +kernel

/-- The end that the client has asked for is published as any other one. -/
theorem not_status_true_disconnectThenEof :
    ¬ ∀ (X : Crates) (eventQueueSize : Nat) (parser : EslParser) (as : List Act) (t : Connection),
      run (Connection.step X) (.init eventQueueSize parser) as = some t →
        Meets (Connection.step X) Unbroken (.init eventQueueSize parser) as →
          Connection.StatusTrue X (.init eventQueueSize parser) as t := by
  intro h
  have hbegin : (run (Connection.step .percentOnly) (.init 1 EslParser.new)
      [.disconnect, .reader]).any (fun u ↦ u.clients.writeShutdown = true ∧
        (u.step .percentOnly (.read .eof)).isSome = true) = true := by
    decide +kernel
  obtain ⟨u, hu, hshutdown, hreading⟩ := exists_run_of_any hbegin
  obtain ⟨t, ht⟩ := Option.isSome_iff_exists.mp hreading
  cases Connection.effect_of_step _ ht with
  | read hpc _ =>
      have htrue := h _ _ _ disconnectThenEof _ (run_concat hu ht) (by decide +kernel)
      have hstatus := (htrue.cause .clientRequested).mpr
        (happens_append_of_run hu (.clientRequested hpc hshutdown) [])
      cases hstatus

end FreeswitchEsl
