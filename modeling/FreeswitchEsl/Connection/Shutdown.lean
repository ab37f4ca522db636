import FreeswitchEsl.Connection.Exclusion
import FreeswitchEsl.Percent

/-!
# The end of a connection

What the clients see when the reader task has ended: the published status, and
the commands that were still in flight.
-/

namespace FreeswitchEsl

open Text Transition

variable (X : Crates)

/-! ## The published status -/

namespace Connection

def status (s : Connection) : ConnectionStatus := s.reader.status

def isConnected (s : Connection) : Bool := decide (s.status = .connected)

end Connection

def ReaderPc.terminated : ReaderPc → Bool
  | .done => true
  | _ => false

theorem ReaderPc.of_terminated {pc : ReaderPc} (h : pc.terminated = true) : pc = .done := by
  cases pc with
  | done => rfl
  | parsing | notifying _ | sending _ | replying _ | reading | returning | panicked => cases h

/-- The reader has left its loop by returning. -/
def ReaderPc.stopped : ReaderPc → Bool
  | .returning | .done => true
  | _ => false

/-- A reader that has returned has published a reason. -/
def ReaderTask.Published (r : ReaderTask) : Prop :=
  r.pc.stopped = true → ∃ reason, r.status = .disconnected reason

/-- The event stream is still there when the reader sends to it. -/
def StreamKept (s : Connection) (a : Act) : Prop :=
  match a with
  | .reader => s.reader.pc.inFlight ≠ [] → s.delivery.channel.receiverAlive = true
  | _ => True

instance (s : Connection) : (a : Act) → Decidable (StreamKept s a)
  | .reader => inferInstanceAs (Decidable (s.reader.pc.inFlight ≠ [] → _))
  | .read _ | .panic | .call _ _ | .disconnect | .setLivenessTimeout _ | .setCommandTimeout _
  | .recv | .dropStream | .tick _ => .isTrue trivial

theorem StreamKept.notify_ne_closed {s : Connection} {result : EslResult EslEvent} {d : Delivery}
    (h : StreamKept s .reader) (hpc : s.reader.pc = .notifying result) :
    s.delivery.notify ≠ (.closed, d) := by
  intro hnotify
  have halive := h (by rw [hpc]; exact List.cons_ne_nil _ _)
  obtain ⟨-, hdead⟩ := Delivery.of_notify_closed hnotify
  rw [hdead] at halive
  cases halive

theorem StreamKept.send_ne_closed {s : Connection} {result : EslResult EslEvent} {d : Delivery}
    (h : StreamKept s .reader) (hpc : s.reader.pc = .sending result) :
    s.delivery.send s.eventNumber result ≠ (.closed, d) := by
  intro hsend
  have halive := h (by rw [hpc]; exact List.cons_ne_nil _ _)
  obtain ⟨-, hdead⟩ := Delivery.of_send_closed hsend
  rw [hdead] at halive
  cases halive

variable {X}

theorem published_parse {r : ReaderTask} (overflow : Bool) (hpc : r.pc = .parsing) :
    (r.parse X overflow).Published := by
  intro hstopped
  rcases ReaderTask.parse_cases (X := X) overflow hpc with
    ⟨m, -, -, -, hnext⟩ | ⟨m, -, -, -, hnext⟩ | ⟨ms, -, -, ⟨-, hnext | hnext⟩ | ⟨hstatus, -⟩⟩
  · rw [hnext] at hstopped
    split at hstopped <;> cases hstopped
  · rw [hnext] at hstopped
    cases hstopped
  · rw [hnext] at hstopped
    cases hstopped
  · rw [hnext] at hstopped
    cases hstopped
  · exact hstatus

theorem published_read {r : ReaderTask} (now : Nat) (livenessTimeoutMs : UInt64)
    (outcome : ReadOutcome) : (r.read now livenessTimeoutMs outcome).Published := by
  intro hstopped
  obtain ⟨-, ⟨-, hnext⟩ | ⟨hstatus, -⟩⟩ :=
    ReaderTask.read_cases (r := r) now livenessTimeoutMs outcome
  · rw [hnext] at hstopped
    cases hstopped
  · exact hstatus

/-- Every way out of the loop publishes a reason, except for a refused item. -/
theorem published_step {s t : Connection} {a : Act} (h : s.reader.Published)
    (hkept : StreamKept s a) (hstep : s.step X a = some t) : t.reader.Published := by
  cases Connection.effect_of_step X hstep with
  | parsed hpc => exact published_parse _ hpc
  | noticed _ _ _ => exact nofun
  | noticeRefused hpc hnotify => exact absurd hnotify (hkept.notify_ne_closed hpc)
  | dispatched _ _ _ => exact nofun
  | itemRefused hpc hsend => exact absurd hsend (hkept.send_ne_closed hpc)
  | replied _ => exact nofun
  | returned hpc =>
      intro _
      apply h
      rw [hpc]
      rfl
  | unwound _ => exact fun _ ↦ ⟨_, rfl⟩
  | read _ _ => exact published_read _ _ _
  | panicked _ => exact nofun
  | called _ | shutdown _ | livenessSet | commandTimeoutSet | received _ | streamDropped | ticked =>
      exact h

/-- If the event stream is there whenever the reader sends to it, then a reader
that has ended is visible to every client. -/
theorem ended_reader_visible (X : Crates) {eventQueueSize : Nat} {parser : EslParser}
    {as : List Act} {t : Connection}
    (hrun : run (Connection.step X) (.init eventQueueSize parser) as = some t)
    (hmeets : Meets (Connection.step X) StreamKept (.init eventQueueSize parser) as)
    (hdone : t.reader.pc.terminated = true) :
    (∃ reason, t.status = .disconnected reason) ∧ t.isConnected = false := by
  have hstep : ∀ (s : Connection) (a : Act) (t : Connection), s.reader.Published →
      StreamKept s a → s.step X a = some t → t.reader.Published :=
    fun _ _ _ hs hkept ↦ published_step hs hkept
  have hinit : (Connection.init eventQueueSize parser).reader.Published := nofun
  have h := invariant_of_meets hstep hinit hrun hmeets
  have hstopped : t.reader.pc.stopped = true := by
    rw [ReaderPc.of_terminated hdone]
    rfl
  obtain ⟨reason, hreason⟩ := h hstopped
  refine ⟨⟨reason, hreason⟩, decide_eq_false ?_⟩
  intro hconnected
  rw [Connection.status, hreason] at hconnected
  cases hconnected

def oneEvent : Bytes := utf8Encode
  "Content-Length: 17\nContent-Type: text/event-plain\n\nEvent-Name: TALK\n".toList

/-- An event is delivered, then the server closes the connection. -/
def eventThenEof : List Act :=
  [.reader, .read (.data oneEvent), .reader, .reader, .reader, .read .eof, .reader]

/-- The application drops the event stream before the event arrives. -/
def eventToNobody : List Act :=
  [.dropStream, .reader, .read (.data oneEvent), .reader, .reader, .reader]

theorem ended_reader_visible_eventThenEof :
    ∃ t, run (Connection.step .percentOnly) (.init 1 EslParser.new) eventThenEof = some t ∧
      t.reader.pc.terminated = true ∧ (∃ reason, t.status = .disconnected reason) ∧
      t.isConnected = false := by
  have hrun : (run (Connection.step .percentOnly) (.init 1 EslParser.new) eventThenEof).any
      (fun t ↦ t.reader.pc.terminated = true) = true := by
    decide +kernel
  obtain ⟨t, ht, hdone⟩ := exists_run_of_any hrun
  refine ⟨t, ht, hdone, ended_reader_visible .percentOnly ht ?_ hdone⟩
  decide +kernel

theorem not_visible_eventToNobody :
    ¬ ∀ (X : Crates) (eventQueueSize : Nat) (parser : EslParser) (as : List Act) (t : Connection),
      run (Connection.step X) (.init eventQueueSize parser) as = some t →
        t.reader.pc.terminated = true → ∃ reason, t.status = .disconnected reason := by
  intro h
  have hrun : (run (Connection.step .percentOnly) (.init 1 EslParser.new) eventToNobody).any
      (fun t ↦ t.reader.pc.terminated = true ∧ t.status = .connected) = true := by
    decide +kernel
  obtain ⟨t, ht, hdone, hstatus⟩ := exists_run_of_any hrun
  obtain ⟨reason, hreason⟩ := h _ _ _ _ t ht hdone
  rw [hstatus] at hreason
  cases hreason

/-! ## Commands in flight -/

/-- The sender in the slot belongs to no call that waits for it. -/
def Clients.NoneStranded (c : Clients) : Prop :=
  ∀ id, c.pendingReply = some id → (c.calls id).state.waiting = false

instance (c : Clients) : Decidable c.NoneStranded :=
  match h : c.pendingReply with
  | none => .isTrue (by simp [Clients.NoneStranded, h])
  | some id => decidable_of_iff ((c.calls id).state.waiting = false)
      (by simp [Clients.NoneStranded, h])

/-- The next step of the reader is its last one. -/
def ReaderPc.ending : ReaderPc → Bool
  | .returning | .panicked => true
  | _ => false

/-- The reader ends when no call waits for its reply, and no call puts its sender
into the slot behind it. -/
def EndsIdle (s : Connection) (a : Act) : Prop :=
  match a with
  | .reader => s.reader.pc.ending = true → s.clients.NoneStranded
  | .call _ .store => s.reader.pc.terminated = false
  | _ => True

instance (s : Connection) : (a : Act) → Decidable (EndsIdle s a)
  | .reader => inferInstanceAs (Decidable (s.reader.pc.ending = true → s.clients.NoneStranded))
  | .call _ .store => inferInstanceAs (Decidable (s.reader.pc.terminated = false))
  | .call _ (.start _ _) | .call _ .lock | .call _ (.write _) | .call _ .await | .call _ (.fail _)
  | .call _ .resolve | .call _ .expire | .call _ .clear | .call _ .cancel | .read _ | .panic
  | .disconnect | .setLivenessTimeout _ | .setCommandTimeout _ | .recv | .dropStream | .tick _ =>
      .isTrue trivial

namespace Clients

variable {c d : Clients} {status : ConnectionStatus} {id : Nat} {op : CallOp}

/-- Of all the steps of a call only the one that fills the slot can strand it. -/
theorem noneStranded_step (h : c.NoneStranded) (hstep : Effect status c id op d)
    (hop : op ≠ .store) : d.NoneStranded := by
  have hkeeps : d.pendingReply = c.pendingReply →
      ((d.calls id).state.waiting = true → (c.calls id).state.waiting = true) →
      d.NoneStranded := by
    intro hslot hback k hk
    have hold := h k (hslot ▸ hk)
    by_cases heq : k = id
    · subst heq
      by_contra hwaiting
      rw [hback (by simpa using hwaiting)] at hold
      cases hold
    · rwa [state_of_effect_of_ne hstep heq]
  cases hstep with
  | stored _ => exact absurd rfl hop
  | wrote hstate _ _ _ =>
      apply hkeeps rfl
      intro _
      rw [hstate]
      rfl
  | awaits hstate =>
      apply hkeeps rfl
      intro _
      rw [hstate]
      rfl
  | cleared _ =>
      intro k hk
      have hempty : c.dropSender.pendingReply = some k := hk
      rw [pendingReply_dropSender] at hempty
      cases hempty
  | notConnected _ _ | invalid _ _ | started _ _ _ | locked _ _ | failed _ _ | resolved _ _
  | abandoned _ _ | expired _ _ | cancelledWaiting _ | cancelledHolding _ =>
      apply hkeeps rfl
      intro hwaiting
      simp [finish, setState, CallState.waiting] at hwaiting

theorem Exclusive.step_expire (h : c.Exclusive) (hnone : c.NoneStranded) (id : Nat) :
    c.step status id .expire = none := by
  cases hexpire : c.step status id .expire with
  | none => rfl
  | some d =>
      cases effect_of_step hexpire with
      | expired hstate hreply =>
          have hwaiting : (c.calls id).state.waiting = true := by
            rw [hstate]
            rfl
          have hslot := hnone id (h.slot id hwaiting hreply)
          rw [hwaiting] at hslot
          cases hslot

end Clients

/-- The calls are exclusive, and behind the end of the reader none is stranded. -/
structure EndedIdle (s : Connection) : Prop where
  exclusive : s.clients.Exclusive
  noneStranded : s.reader.pc.terminated = true → s.clients.NoneStranded

theorem endedIdle_step {s t : Connection} {a : Act} (h : EndedIdle s) (hidle : EndsIdle s a)
    (hstep : s.step X a = some t) : EndedIdle t := by
  refine ⟨Connection.exclusive_step X h.exclusive hstep, ?_⟩
  intro hdone
  cases Connection.effect_of_step X hstep with
  | parsed hpc =>
      have hstopped : (s.reader.parse X s.delivery.eventOverflow).pc.terminated = false := by
        rcases ReaderTask.parse_cases (X := X) s.delivery.eventOverflow hpc with
          ⟨m, -, -, -, hnext⟩ | ⟨m, -, -, -, hnext⟩ |
            ⟨ms, -, -, ⟨-, hnext | hnext⟩ | ⟨-, hnext⟩⟩ <;> rw [hnext]
        · split <;> rfl
        all_goals rfl
      rw [hstopped] at hdone
      cases hdone
  | returned hpc =>
      apply hidle
      rw [hpc]
      rfl
  | unwound hpc =>
      apply hidle
      rw [hpc]
      rfl
  | @read outcome _ _ =>
      have hstopped : (s.reader.read s.now s.livenessTimeoutMs outcome).pc.terminated = false := by
        obtain ⟨-, ⟨-, hnext⟩ | ⟨-, hnext⟩⟩ :=
          ReaderTask.read_cases (r := s.reader) s.now s.livenessTimeoutMs outcome
        all_goals
          rw [hnext]
          rfl
      rw [hstopped] at hdone
      cases hdone
  | @called id op clients heffect =>
      apply Clients.noneStranded_step (h.noneStranded hdone) heffect
      rintro rfl
      have hrunning : s.reader.pc.terminated = false := hidle
      rw [hrunning] at hdone
      cases hdone
  | noticed _ _ _ | noticeRefused _ _ | dispatched _ _ _ | itemRefused _ _ | replied _
  | panicked _ => cases hdone
  | shutdown _ => exact h.noneStranded hdone
  | commandTimeoutSet => exact h.noneStranded hdone
  | livenessSet | received _ | streamDropped | ticked => exact h.noneStranded hdone

/-- If the reader ends while no call waits for its reply, and no call stores its
sender behind it, then no call is stranded and none can run into its timeout. -/
theorem none_stranded (X : Crates) {eventQueueSize : Nat} {parser : EslParser}
    {as : List Act} {t : Connection}
    (hrun : run (Connection.step X) (.init eventQueueSize parser) as = some t)
    (hmeets : Meets (Connection.step X) EndsIdle (.init eventQueueSize parser) as)
    (hdone : t.reader.pc.terminated = true) :
    t.clients.NoneStranded ∧ ∀ id, t.step X (.call id .expire) = none := by
  have hstep : ∀ (s : Connection) (a : Act) (t : Connection), EndedIdle s → EndsIdle s a →
      s.step X a = some t → EndedIdle t :=
    fun _ _ _ hs hidle ↦ endedIdle_step hs hidle
  have hinit : EndedIdle (.init eventQueueSize parser) := ⟨Clients.exclusive_init, nofun⟩
  have h := invariant_of_meets hstep hinit hrun hmeets
  refine ⟨h.noneStranded hdone, fun id ↦ ?_⟩
  rw [Connection.step, h.exclusive.step_expire (h.noneStranded hdone) id]
  rfl

def sendStatus : List Act :=
  [.call 0 (.start .byName (.api "status".toList)), .call 0 .lock, .call 0 .store,
    .call 0 (.write 12), .call 0 .await]

/-- The reply, and the end of the stream behind it. -/
def repliedThenEof : List Act :=
  sendStatus ++ [.reader, .read (.data (utf8Encode
    "Content-Type: api/response\nContent-Length: 2\n\nup".toList)), .reader, .reader,
    .call 0 .resolve, .reader, .read .eof, .reader]

def eofInFlight : List Act := sendStatus ++ [.reader, .read .eof, .reader]

theorem none_stranded_repliedThenEof :
    ∃ t, run (Connection.step .percentOnly) (.init 1 EslParser.new) repliedThenEof = some t ∧
      t.reader.pc.terminated = true ∧ t.clients.NoneStranded := by
  have hrun : (run (Connection.step .percentOnly) (.init 1 EslParser.new) repliedThenEof).any
      (fun t ↦ t.reader.pc.terminated = true) = true := by
    decide +kernel
  obtain ⟨t, ht, hdone⟩ := exists_run_of_any hrun
  have hmeets : Meets (Connection.step .percentOnly) EndsIdle (.init 1 EslParser.new)
      repliedThenEof := by
    decide +kernel
  exact ⟨t, ht, hdone, (none_stranded .percentOnly ht hmeets hdone).1⟩

theorem not_noneStranded_eofInFlight :
    ¬ ∀ (X : Crates) (eventQueueSize : Nat) (parser : EslParser) (as : List Act) (t : Connection),
      run (Connection.step X) (.init eventQueueSize parser) as = some t →
        t.reader.pc.terminated = true →
        t.clients.NoneStranded ∧ ∀ id, t.step X (.call id .expire) = none := by
  intro h
  have hrun : (run (Connection.step .percentOnly) (.init 1 EslParser.new) eofInFlight).any
      (fun t ↦ t.reader.pc.terminated = true ∧
        (t.step .percentOnly (.call 0 .expire)).isSome = true) = true := by
    decide +kernel
  obtain ⟨t, ht, hdone, hexpire⟩ := exists_run_of_any hrun
  obtain ⟨-, hnone⟩ := h _ _ _ _ t ht hdone
  rw [hnone 0] at hexpire
  cases hexpire

end FreeswitchEsl
