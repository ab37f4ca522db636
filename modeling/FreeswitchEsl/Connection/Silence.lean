import FreeswitchEsl.Connection.Progress
import FreeswitchEsl.Connection.Status

/-!
# Silence on the connection

How long nothing has come from the server is read off the run.  The liveness timer ends
the connection by exactly that measure, and behind the end the client is silent too.
-/

namespace FreeswitchEsl

open Text Transition

variable {X : Crates}

/-! ## The liveness timer -/

/-- The nanoseconds that have passed since bytes came, as a step leaves them. -/
def Act.quiet (nanos : Nat) : Act → Nat
  | .tick passed => nanos + passed
  | .read (.data _) => 0
  | _ => nanos

def Act.threshold (millis : UInt64) : Act → UInt64
  | .setLivenessTimeout millis => .ofNat millis
  | _ => millis

/-- The nanoseconds at the end of a run for which no bytes have come. -/
def quietNanos (as : List Act) : Nat := as.foldl Act.quiet 0

/-- The liveness timeout that was set last, zero when none was. -/
def livenessTimeout (as : List Act) : UInt64 := as.foldl Act.threshold 0

namespace Connection

variable {s t : Connection} {a : Act}

/-- The reader's clock and threshold are those of the run. -/
structure Timed (nanos : Nat) (millis : UInt64) (s : Connection) : Prop where
  quiet : s.reader.lastRecv + nanos = s.now
  threshold : s.livenessTimeoutMs = millis

theorem lastRecv_parse (r : ReaderTask) (overflow : Bool) :
    (r.parse X overflow).lastRecv = r.lastRecv := by
  unfold ReaderTask.parse
  split
  · unfold ReaderTask.handle
    split
    · split <;> rfl
    · rfl
    · rfl
    · split <;> rfl
    · rfl
    · rfl
  · rfl
  · rfl

theorem lastRecv_read (r : ReaderTask) (now : Nat) (livenessTimeoutMs : UInt64)
    (outcome : ReadOutcome) :
    (r.read now livenessTimeoutMs outcome).lastRecv =
      match outcome with
      | .data _ => now
      | _ => r.lastRecv := by
  cases outcome with
  | eof | error e => rfl
  | data chunk =>
      unfold ReaderTask.read
      dsimp only
      split <;> rfl
  | timedOut =>
      unfold ReaderTask.read
      dsimp only
      split <;> rfl

theorem timed_step {nanos : Nat} {millis : UInt64} (h : s.Timed nanos millis)
    (hstep : s.step X a = some t) : t.Timed (a.quiet nanos) (a.threshold millis) := by
  have hquiet := h.quiet
  cases Connection.effect_of_step X hstep with
  | parsed _ => exact ⟨(congrArg (· + nanos) (lastRecv_parse _ _)).trans hquiet, h.threshold⟩
  | @read outcome _ _ =>
      refine ⟨?_, h.threshold⟩
      dsimp only
      rw [lastRecv_read]
      cases outcome with
      | data chunk => rfl
      | eof | error e | timedOut => exact hquiet
  | livenessSet => exact ⟨hquiet, rfl⟩
  | ticked =>
      refine ⟨?_, h.threshold⟩
      dsimp only [Act.quiet]
      omega
  | noticed _ _ _ | noticeRefused _ _ | dispatched _ _ _ | itemRefused _ _ | replied _
  | returned _ | unwound _ | panicked _ | called _ | shutdown _ | commandTimeoutSet | received _
  | streamDropped => exact ⟨hquiet, h.threshold⟩

theorem timed_run {as : List Act} {nanos : Nat} {millis : UInt64} (h : s.Timed nanos millis)
    (hrun : run (step X) s as = some t) :
    t.Timed (as.foldl Act.quiet nanos) (as.foldl Act.threshold millis) := by
  induction as generalizing s nanos millis with
  | nil =>
      obtain rfl : s = t := Option.some.inj hrun
      exact h
  | cons a as ih =>
      obtain ⟨v, hv, hrest⟩ := run_cons_eq_some.mp hrun
      exact ih (timed_step h hv) hrest

/-- What the reader publishes, a step of it has a cause for. -/
theorem heartbeatExpired_of_step (hstep : s.step X a = some t)
    (hconnected : s.status = .connected) (h : t.status = .disconnected .heartbeatExpired) :
    a = .read .timedOut ∧ 0 < s.livenessTimeoutMs ∧
      s.livenessTimeoutMs.toNat * 10 ^ 6 < s.now - s.reader.lastRecv := by
  have hsame : t.status = s.status → False := by
    intro hsame
    rw [hsame, hconnected] at h
    cases h
  cases Connection.effect_of_step X hstep with
  | parsed hpc =>
      exfalso
      revert h
      change (s.reader.parse X s.delivery.eventOverflow).status ≠ _
      have hreader : s.reader.status = .connected := hconnected
      unfold ReaderTask.parse
      split
      · unfold ReaderTask.handle
        split
        · split <;> simp [hreader]
        · simp [hreader]
        · simp [hreader]
        · split
          · simp [hreader]
          · simp [ReaderTask.disconnect]
        · simp [hreader]
        · simp [hreader]
      · simp [hreader]
      · simp [ReaderTask.disconnect]
  | @read outcome _ _ =>
      have hreader : s.reader.status = .connected := hconnected
      change (s.reader.read s.now s.livenessTimeoutMs outcome).status = _ at h
      unfold ReaderTask.read at h
      cases outcome with
      | eof => simp [ReaderTask.disconnect] at h
      | error e => simp [ReaderTask.disconnect] at h
      | data chunk =>
          dsimp only at h
          split at h
          · simp [hreader] at h
          · simp [ReaderTask.disconnect] at h
      | timedOut =>
          dsimp only at h
          split at h
          · rename_i hexpired
            exact ⟨rfl, hexpired⟩
          · simp [hreader] at h
  | unwound _ => cases h
  | noticed _ _ _ | noticeRefused _ _ | dispatched _ _ _ | itemRefused _ _ | replied _
  | returned _ | panicked _ | called _ | shutdown _ | livenessSet | commandTimeoutSet | received _
  | streamDropped | ticked => exact (hsame rfl).elim

end Connection

/-- At every moment of every run a step ends the connection with `HeartbeatExpired` exactly
when it is a read that timed out, a liveness timeout is set, and the time since bytes last
came is longer: what comes from the server starts the timer again, whatever it is, and
nothing else does. -/
theorem heartbeat_exact (X : Crates) {eventQueueSize : Nat} {parser : EslParser} {as : List Act}
    {s t : Connection} {a : Act}
    (hrun : run (Connection.step X) (.init eventQueueSize parser) as = some s)
    (hconnected : s.status = .connected) (hstep : s.step X a = some t) :
    t.status = .disconnected .heartbeatExpired ↔
      a = .read .timedOut ∧ 0 < livenessTimeout as ∧
        (livenessTimeout as).toNat * 10 ^ 6 < quietNanos as := by
  have htimed : s.Timed (quietNanos as) (livenessTimeout as) :=
    Connection.timed_run (s := .init eventQueueSize parser) ⟨rfl, rfl⟩ hrun
  have hquiet : s.now - s.reader.lastRecv = quietNanos as := by
    have := htimed.quiet
    omega
  constructor
  · intro h
    obtain ⟨ha, hpos, hlate⟩ := Connection.heartbeatExpired_of_step hstep hconnected h
    rw [htimed.threshold] at hpos hlate
    exact ⟨ha, hpos, hquiet ▸ hlate⟩
  · rintro ⟨rfl, hpos, hlate⟩
    cases Connection.effect_of_step X hstep with
    | read hpc _ =>
        have hexpired : 0 < s.livenessTimeoutMs ∧
            s.livenessTimeoutMs.toNat * 10 ^ 6 < s.now - s.reader.lastRecv := by
          rw [htimed.threshold, hquiet]
          exact ⟨hpos, hlate⟩
        change (s.reader.read s.now s.livenessTimeoutMs .timedOut).status = _
        unfold ReaderTask.read
        dsimp only
        rw [if_pos hexpired]
        rfl

/-- Two seconds of silence with a timeout of one second; an event comes in between. -/
def lateTimeout : List Act :=
  [.setLivenessTimeout 1000, .reader, .tick 2000000000, .read (.data oneEvent), .reader, .reader,
    .reader, .tick 1000000001]

theorem heartbeat_exact_lateTimeout :
    ∃ s t, run (Connection.step .percentOnly) (.init 1 EslParser.new) lateTimeout = some s ∧
      s.step .percentOnly (.read .timedOut) = some t ∧
        t.status = .disconnected .heartbeatExpired := by
  have hrun : (run (Connection.step .percentOnly) (.init 1 EslParser.new) lateTimeout).any
      (fun s ↦ s.status = .connected ∧
        (s.step .percentOnly (.read .timedOut)).any fun _ ↦ True) = true := by
    decide +kernel
  obtain ⟨s, hs, hconnected, hnext⟩ := exists_run_of_any hrun
  obtain ⟨t, ht, -⟩ := (Option.any_eq_true _ _).mp hnext
  have hlate : 0 < livenessTimeout lateTimeout ∧
      (livenessTimeout lateTimeout).toNat * 10 ^ 6 < quietNanos lateTimeout := by
    decide +kernel
  exact ⟨s, t, hs, ht, (heartbeat_exact .percentOnly hs hconnected ht).mpr ⟨rfl, hlate⟩⟩

/-! ## Behind the end -/

namespace Clients

variable {c d : Clients} {status : ConnectionStatus} {id k : Nat} {op : CallOp}

/-- A call that begins behind the end is refused at once. -/
theorem refused_of_step (hidle : (c.calls id).state = .idle) (hstatus : status ≠ .connected)
    (hstep : c.step status id op = some d) :
    d = c.setState id (.returned (.error .notConnected)) := by
  unfold step at hstep
  rw [hidle] at hstep
  cases op with
  | start order command =>
      dsimp only at hstep
      rw [if_pos hstatus] at hstep
      exact (Option.some.inj hstep).symm
  | lock | store | write _ | await | fail _ | resolve | expire | clear | cancel => cases hstep

theorem not_step_of_over (hover : (c.calls id).state.underway = false)
    (hidle : (c.calls id).state ≠ .idle) : c.step status id op = none := by
  unfold step
  cases hstate : (c.calls id).state with
  | idle => exact absurd hstate hidle
  | returned _ | cancelled => rfl
  | locking | storing | writing _ | awaiting _ | timedOut _ =>
      rw [hstate] at hover
      cases hover

end Clients

namespace Connection

variable {s t : Connection} {a : Act} {id : Nat}

/-- Once the status tells of the end, the reader has left its loop. -/
def EndSeen (s : Connection) : Prop := s.status ≠ .connected → ∃ reason, s.Stopped reason

theorem endSeen_step (h : s.EndSeen) (hstep : s.step X a = some t) : t.EndSeen := by
  intro hended
  by_cases hstatus : s.status = .connected
  · -- the step is the one that publishes the reason
    have hchanged : t.status ≠ s.status := hstatus ▸ hended
    cases Connection.effect_of_step X hstep with
    | parsed hpc =>
        rcases ReaderTask.parse_cases (X := X) s.delivery.eventOverflow hpc with
          ⟨m, -, -, hsame, -⟩ | ⟨m, -, -, hsame, -⟩ |
            ⟨ms, -, -, ⟨hsame, -⟩ | ⟨⟨reason, hreason⟩, hpc'⟩⟩
        · exact absurd hsame hchanged
        · exact absurd hsame hchanged
        · exact absurd hsame hchanged
        · refine ⟨reason, hreason, ?_⟩
          dsimp only
          rw [hpc']
          rfl
    | @read outcome _ _ =>
        obtain ⟨-, ⟨hsame, -⟩ | ⟨⟨reason, hreason⟩, hpc'⟩⟩ :=
          ReaderTask.read_cases (r := s.reader) s.now s.livenessTimeoutMs outcome
        · exact absurd hsame hchanged
        · refine ⟨reason, hreason, ?_⟩
          dsimp only
          rw [hpc']
          rfl
    | unwound _ => exact ⟨_, rfl, rfl⟩
    | noticed _ _ _ | noticeRefused _ _ | dispatched _ _ _ | itemRefused _ _ | replied _
    | returned _ | panicked _ | called _ | shutdown _ | livenessSet | commandTimeoutSet
    | received _ | streamDropped | ticked => exact absurd rfl hchanged
  · obtain ⟨reason, hstopped⟩ := h hstatus
    exact ⟨reason, stopped_step hstopped hstep⟩

theorem clients_of_call {op : CallOp} (hstep : s.step X (.call id op) = some t) :
    s.clients.step s.reader.status id op = some t.clients := by
  obtain ⟨clients, hclients, rfl⟩ := Option.map_eq_some_iff.mp hstep
  exact hclients

/-- What has been seen of the end: the reader has stopped, and the call has not got
anywhere. -/
structure Refuses (id : Nat) (s : Connection) : Prop where
  stopped : ∃ reason, s.Stopped reason
  call : (s.clients.calls id).state = .idle ∨
    (s.clients.calls id).state = .returned (.error .notConnected)

theorem Refuses.ne_connected (h : s.Refuses id) : s.reader.status ≠ .connected := by
  obtain ⟨reason, hstatus, -⟩ := h.stopped
  intro hconnected
  have hreader : s.reader.status = .disconnected reason := hstatus
  rw [hconnected] at hreader
  cases hreader

theorem refuses_step (h : s.Refuses id) (hstep : s.step X a = some t) : t.Refuses id := by
  obtain ⟨reason, hstopped⟩ := h.stopped
  refine ⟨⟨reason, stopped_step hstopped hstep⟩, ?_⟩
  by_cases ha : a.isStepOf id = true
  · cases a with
    | call k op =>
        obtain rfl : k = id := by simpa [Act.isStepOf] using ha
        have hcall := clients_of_call hstep
        rcases h.call with hidle | hreturned
        · rw [Clients.refused_of_step hidle h.ne_connected hcall, Clients.calls_setState_self]
          exact Or.inr rfl
        · rw [Clients.not_step_of_over (by rw [hreturned]; rfl) (by rw [hreturned]; simp)] at hcall
          cases hcall
    | reader | read _ | panic | disconnect | setLivenessTimeout _ | setCommandTimeout _ | recv
    | dropStream | tick _ => cases ha
  · rw [(call_of_step_of_ne hstep (by simpa using ha)).1]
    exact h.call

/-- The reader has stopped, no call is underway, and `wire` has been written. -/
structure Mute (wire : Bytes) (s : Connection) : Prop where
  stopped : ∃ reason, s.Stopped reason
  ended : ∀ id, (s.clients.calls id).state.underway = false
  wire : s.clients.wire = wire

theorem mute_step {wire : Bytes} (h : s.Mute wire) (hstep : s.step X a = some t) :
    t.Mute wire := by
  obtain ⟨reason, hstopped⟩ := h.stopped
  refine ⟨⟨reason, stopped_step hstopped hstep⟩, ?_, ?_⟩
  · intro id
    by_cases hidle : (s.clients.calls id).state = .idle
    · have hrefused := (refuses_step ⟨h.stopped, Or.inl hidle⟩ hstep).call
      rcases hrefused with hcall | hcall <;> rw [hcall] <;> rfl
    · by_cases ha : a.isStepOf id = true
      · cases a with
        | call k op =>
            obtain rfl : k = id := by simpa [Act.isStepOf] using ha
            have hcall := clients_of_call hstep
            rw [Clients.not_step_of_over (h.ended k) hidle] at hcall
            cases hcall
        | reader | read _ | panic | disconnect | setLivenessTimeout _ | setCommandTimeout _ | recv
        | dropStream | tick _ => cases ha
      · rw [(call_of_step_of_ne hstep (by simpa using ha)).1]
        exact h.ended id
  · by_cases hcalls : ∃ id op, a = .call id op
    · obtain ⟨id, op, rfl⟩ := hcalls
      have hcall := clients_of_call hstep
      by_cases hidle : (s.clients.calls id).state = .idle
      · have hrefuses : s.Refuses id := ⟨h.stopped, Or.inl hidle⟩
        rw [Clients.refused_of_step hidle hrefuses.ne_connected hcall]
        exact h.wire
      · rw [Clients.not_step_of_over (h.ended id) hidle] at hcall
        cases hcall
    · refine clients_of_step (fun c ↦ c.wire = wire) hstep h.wire ?_ ?_ h.wire fun _ ↦ h.wire
      · intro message _ _
        exact (Clients.wire_deliver message).trans h.wire
      · rintro id op clients rfl -
        exact absurd ⟨id, op, rfl⟩ hcalls

end Connection

/-- Behind the end of a connection, whatever is tried: a call that had not begun is refused
with `NotConnected` and never comes nearer to the writer, and once no call is underway not
a byte is written any more. -/
theorem disconnected_silent (X : Crates) {eventQueueSize : Nat} {parser : EslParser}
    {as bs : List Act} {s t : Connection}
    (hrun : run (Connection.step X) (.init eventQueueSize parser) as = some s)
    (hended : s.status ≠ .connected) (hafter : run (Connection.step X) s bs = some t) :
    (∀ id, (s.clients.calls id).state = .idle →
        (t.clients.calls id).state = .idle ∨
          (t.clients.calls id).state = .returned (.error .notConnected)) ∧
      ((∀ id, (s.clients.calls id).state.underway = false) →
        t.clients.wire = s.clients.wire) := by
  have hseen := invariant_of_run (I := Connection.EndSeen)
    (fun _ _ _ hs hstep ↦ Connection.endSeen_step hs hstep)
    (fun h ↦ absurd rfl h) hrun
  have hstopped := hseen hended
  refine ⟨fun id hidle ↦ ?_, fun hover ↦ ?_⟩
  · exact (invariant_of_run (I := Connection.Refuses id)
      (fun _ _ _ hs hstep ↦ Connection.refuses_step hs hstep) ⟨hstopped, Or.inl hidle⟩ hafter).call
  · exact (invariant_of_run (I := Connection.Mute s.clients.wire)
      (fun _ _ _ hs hstep ↦ Connection.mute_step hs hstep) ⟨hstopped, hover, rfl⟩ hafter).wire

/-- A command is sent behind the end of the stream, and somebody tries to go on with it. -/
theorem disconnected_silent_eof :
    ∃ s t, run (Connection.step .percentOnly) (.init 1 EslParser.new)
        [.reader, .read .eof] = some s ∧
      run (Connection.step .percentOnly) s
        [.call 0 (.start .byName (.api "status".toList)), .reader, .disconnect] = some t ∧
      ((t.clients.calls 0).state = .idle ∨
        (t.clients.calls 0).state = .returned (.error .notConnected)) ∧
      t.clients.wire = s.clients.wire := by
  have hrun : (run (Connection.step .percentOnly) (.init 1 EslParser.new)
      [.reader, .read .eof]).any (fun s ↦ s.status ≠ .connected ∧
        ((run (Connection.step .percentOnly) s
          [.call 0 (.start .byName (.api "status".toList)), .reader, .disconnect]).any
            fun _ ↦ True) = true) = true := by
    decide +kernel
  obtain ⟨s, hs, hended, hafter⟩ := exists_run_of_any hrun
  obtain ⟨t, ht, -⟩ := exists_run_of_any hafter
  have hidle : ∀ id, (s.clients.calls id).state = .idle := by
    intro id
    obtain ⟨u, hu, hrest⟩ := run_cons_eq_some.mp hs
    obtain ⟨v, hv, hlast⟩ := run_cons_eq_some.mp hrest
    obtain rfl : v = s := Option.some.inj hlast
    exact (Connection.call_of_step_of_ne hv rfl).1.trans (Connection.call_of_step_of_ne hu rfl).1
  obtain ⟨hrefused, hwire⟩ := disconnected_silent .percentOnly hs hended ht
  exact ⟨s, t, hs, ht, hrefused 0 (hidle 0), hwire fun id ↦ by rw [hidle id]; rfl⟩

end FreeswitchEsl
