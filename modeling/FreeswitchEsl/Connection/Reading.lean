import FreeswitchEsl.Connection.Handshake
import FreeswitchEsl.Connection.Replies
import FreeswitchEsl.Protocol.Bounds

/-!
# How the parser is fed

`recv_message` and the reader task add a chunk only after `parse_message` has asked
for more, so what holds of the calls of a parser holds during the handshake and in
every run of a connection.
-/

namespace FreeswitchEsl

open Text Transition

variable (X : Crates)

/-- Calls, none of which fails, lead a new parser here. -/
def Fed (p : EslParser) (drained : Bool) : Prop :=
  ∃ ops s, run (Feed.step X) Feed.init ops = some s ∧ s.parser = p ∧ s.drained = drained

variable {X}

namespace Fed

variable {p p' : EslParser} {drained : Bool} {m : EslMessage}

theorem new : Fed X EslParser.new false := ⟨[], _, rfl, rfl, rfl⟩

theorem asked (h : Fed X p drained) (hparse : p.parseMessage X = (.ok none, p')) :
    Fed X p' true := by
  obtain ⟨ops, s, hrun, rfl, -⟩ := h
  have hstep : s.step X .parseMessage = some ⟨p', s.fed, s.delivered, true⟩ := by
    simp only [Feed.step, hparse]
  exact ⟨_, _, run_concat hrun hstep, rfl, rfl⟩

theorem delivered (h : Fed X p drained) (hparse : p.parseMessage X = (.ok (some m), p')) :
    Fed X p' false := by
  obtain ⟨ops, s, hrun, rfl, -⟩ := h
  have hstep : s.step X .parseMessage = some ⟨p', s.fed, s.delivered ++ [m], false⟩ := by
    simp only [Feed.step, hparse]
  exact ⟨_, _, run_concat hrun hstep, rfl, rfl⟩

theorem added (h : Fed X p drained) {chunk : Bytes} (hadd : p.addData chunk = (.ok (), p')) :
    Fed X p' false := by
  obtain ⟨ops, s, hrun, rfl, -⟩ := h
  have hstep : s.step X (.addData chunk) = some ⟨p', s.fed ++ chunk, s.delivered, false⟩ := by
    simp only [Feed.step, hadd]
  exact ⟨_, _, run_concat hrun hstep, rfl, rfl⟩

theorem addsWithinLimits (h : Fed X p true) {chunk : Bytes}
    (hchunk : chunk.length ≤ SOCKET_BUF_SIZE) : AddsWithinLimits p chunk := by
  obtain ⟨ops, s, hrun, rfl, hdrained⟩ := h
  exact (bounded_of_run hrun).addsWithinLimits hdrained hchunk

end Fed

/-! ## The handshake -/

theorem fed_of_recvMessage {p p' : EslParser} {drained : Bool} {chunks unread : List Bytes}
    {m : EslMessage} (h : Fed X p drained) (hrecv : recvMessage X p chunks = .message m p' unread) :
    Fed X p' false := by
  induction chunks generalizing p drained with
  | nil =>
      rw [recvMessage] at hrecv
      split at hrecv
      · cases hrecv
      · rename_i message parser hparse
        cases hrecv
        exact h.delivered hparse
      · cases hrecv
  | cons chunk chunks ih =>
      rw [recvMessage] at hrecv
      split at hrecv
      · cases hrecv
      · rename_i message parser hparse
        cases hrecv
        exact h.delivered hparse
      · rename_i parser hparse
        dsimp only at hrecv
        split at hrecv
        · cases hrecv
        · rename_i parser' hadd
          exact ih ((h.asked hparse).added hadd) hrecv

theorem fed_of_authenticate {order : HashOrder} {method : AuthMethod} {p p' : EslParser}
    {drained : Bool} {chunks unread : List Bytes} {ending : StreamEnd}
    {written : Except Str Unit} (h : Fed X p drained)
    (hauth : authenticate X order method p chunks ending written = .ok (p', unread)) :
    Fed X p' false := by
  obtain ⟨⟨message, q, rest⟩, hfirst, hauth⟩ := bind_eq_ok.mp hauth
  have hq := fed_of_recvMessage h (toResult_eq_ok.mp hfirst)
  dsimp only at hauth
  split at hauth
  · cases hauth
  · obtain ⟨text, -, hauth⟩ := bind_eq_ok.mp hauth
    split at hauth
    · cases hauth
    · obtain ⟨⟨response, q', rest'⟩, hsecond, hauth⟩ := bind_eq_ok.mp hauth
      have hq' := fed_of_recvMessage hq (toResult_eq_ok.mp hsecond)
      dsimp only at hauth
      split at hauth
      · cases hauth
        exact hq'
      · cases hauth

/-- The parser that a successful connect hands to the reader task. -/
theorem fed_of_connectInner {order : HashOrder} {method : AuthMethod} {connected : EslResult Unit}
    {p : EslParser} {chunks unread : List Bytes} {ending : StreamEnd} {written : Except Str Unit}
    (h : connectInner X order method connected chunks ending written = .ok (p, unread)) :
    Fed X p false := by
  obtain ⟨-, -, h⟩ := bind_eq_ok.mp h
  obtain ⟨-, -, h⟩ := bind_eq_ok.mp h
  exact fed_of_authenticate Fed.new h

/-! ## The reader task -/

/-- While the reader loop runs, its parser has been fed without an error, and it
reads only when the parser has asked for more. -/
def ReaderTask.FedInTurn (X : Crates) (r : ReaderTask) : Prop :=
  r.pc.live = true → ∃ drained, Fed X r.parser drained ∧ (r.pc = .reading → drained = true)

def ReaderPc.isReading : ReaderPc → Bool
  | .reading => true
  | _ => false

theorem ReaderPc.of_isReading {pc : ReaderPc} (h : pc.isReading = true) : pc = .reading := by
  cases pc with
  | reading => rfl
  | _ => cases h

theorem ReaderTask.handle_ne_reading {r : ReaderTask} {m : EslMessage} {overflow : Bool}
    (h : r.pc ≠ .reading) : (handle X overflow m r).pc ≠ .reading := by
  unfold handle
  split
  · split <;> nofun
  · nofun
  · nofun
  · split
    · exact h
    · nofun
  · exact h
  · exact h

namespace ReaderTask.FedInTurn

variable {r r' : ReaderTask}

theorem of_parser_eq (h : r.FedInTurn X) (hparser : r'.parser = r.parser)
    (hlive : r'.pc.live = true → r.pc.live = true) (hreading : r'.pc ≠ .reading) :
    r'.FedInTurn X := by
  intro hlive'
  obtain ⟨drained, hfed, -⟩ := h (hlive hlive')
  exact ⟨drained, hparser ▸ hfed, fun hpc ↦ absurd hpc hreading⟩

theorem parse (h : r.FedInTurn X) (overflow : Bool) (hpc : r.pc = .parsing) :
    (r.parse X overflow).FedInTurn X := by
  obtain ⟨drained, hfed, -⟩ := h (by rw [hpc]; rfl)
  unfold ReaderTask.parse
  split
  · rename_i message parser hparse
    intro _
    refine ⟨false, ?_, ?_⟩
    · rw [ReaderTask.parser_handle]
      exact hfed.delivered hparse
    · intro hreading
      exact absurd hreading (ReaderTask.handle_ne_reading (by rw [hpc]; nofun))
  · rename_i parser hparse
    exact fun _ ↦ ⟨true, hfed.asked hparse, fun _ ↦ rfl⟩
  · exact nofun

theorem read (h : r.FedInTurn X) (hpc : r.pc = .reading) (now : Nat) (livenessTimeoutMs : UInt64)
    (outcome : ReadOutcome) : (r.read now livenessTimeoutMs outcome).FedInTurn X := by
  obtain ⟨drained, hfed, -⟩ := h (by rw [hpc]; rfl)
  unfold ReaderTask.read
  split
  · exact nofun
  · dsimp only
    split
    · rename_i parser hadd
      exact fun _ ↦ ⟨false, hfed.added hadd, nofun⟩
    · exact nofun
  · exact nofun
  · split
    · exact nofun
    · exact fun _ ↦ ⟨drained, hfed, nofun⟩

end ReaderTask.FedInTurn

theorem Connection.fedInTurn_step {s t : Connection} {a : Act} (h : s.reader.FedInTurn X)
    (hstep : s.step X a = some t) : t.reader.FedInTurn X := by
  cases Connection.effect_of_step X hstep with
  | parsed hpc => exact h.parse _ hpc
  | read hpc _ => exact h.read hpc _ _ _
  | noticed hpc _ _ | dispatched hpc _ _ | replied hpc =>
      refine h.of_parser_eq rfl (fun _ ↦ ?_) nofun
      rw [hpc]
      rfl
  | noticeRefused _ _ | itemRefused _ _ | returned _ | unwound _ | panicked _ => exact nofun
  | called _ | shutdown _ | livenessSet | commandTimeoutSet | received _ | streamDropped
  | ticked => exact h

/-- Behind every successful connect, whenever the reader task is about to read, a
chunk that fits the read buffer is added within the limits. -/
theorem Connection.reader_addsWithinLimits {order : HashOrder} {method : AuthMethod}
    {connected : EslResult Unit} {chunks unread : List Bytes} {ending : StreamEnd}
    {written : Except Str Unit} {parser : EslParser} {eventQueueSize : Nat} {as : List Act}
    {t : Connection}
    (hconnect : connectInner X order method connected chunks ending written = .ok (parser, unread))
    (hrun : run (Connection.step X) (.init eventQueueSize parser) as = some t)
    (hpc : t.reader.pc = .reading) {chunk : Bytes} (hchunk : chunk.length ≤ SOCKET_BUF_SIZE) :
    AddsWithinLimits t.reader.parser chunk := by
  have hinit : (Connection.init eventQueueSize parser).reader.FedInTurn X :=
    fun _ ↦ ⟨false, fed_of_connectInner hconnect, nofun⟩
  have h := invariant_of_run (I := fun s : Connection ↦ s.reader.FedInTurn X)
    (fun _ _ _ hs hstep ↦ fedInTurn_step hs hstep) hinit hrun
  obtain ⟨drained, hfed, hdrained⟩ := h (by rw [hpc]; rfl)
  rw [hdrained hpc] at hfed
  exact hfed.addsWithinLimits hchunk

/-- The server accepts the login, and the first half of an event comes with the answer. -/
def loginAndAHalf : Bytes := utf8Encode
  ("Content-Type: auth/request\n\nContent-Type: command/reply\nReply-Text: +OK accepted\n\n" ++
    "Content-Length: 17\nContent-Type: text/event-plain\n\nEvent-").toList

theorem Connection.reader_addsWithinLimits_login :
    ∃ parser unread t, connectInner .percentOnly .byName (.password "ClueCon".toList) (.ok ())
        [loginAndAHalf] .eof (.ok ()) = .ok (parser, unread) ∧
      run (Connection.step .percentOnly) (.init 1 parser) [.reader] = some t ∧
        t.reader.pc = .reading ∧
          AddsWithinLimits t.reader.parser (utf8Encode "Name: TALK\n".toList) := by
  have hlogin : (connectInner .percentOnly .byName (.password "ClueCon".toList) (.ok ())
      [loginAndAHalf] .eof (.ok ())).toOption.any (fun r ↦
        (run (Connection.step .percentOnly) (.init 1 r.1) [.reader]).any (fun t ↦
          t.reader.pc.isReading = true) = true) = true := by
    decide +kernel
  obtain ⟨⟨parser, unread⟩, hsome, hrest⟩ := (Option.any_eq_true _ _).mp hlogin
  obtain ⟨t, ht, hreading⟩ := exists_run_of_any (of_decide_eq_true hrest)
  have hconnect := toOption_eq_some.mp hsome
  have hpc := ReaderPc.of_isReading hreading
  have hchunk : (utf8Encode "Name: TALK\n".toList).length ≤ SOCKET_BUF_SIZE := by decide +kernel
  exact ⟨parser, unread, t, hconnect, ht, hpc,
    Connection.reader_addsWithinLimits hconnect ht hpc hchunk⟩

end FreeswitchEsl
