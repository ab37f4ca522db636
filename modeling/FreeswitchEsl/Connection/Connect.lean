import FreeswitchEsl.CommandLines
import FreeswitchEsl.Connection.Transport

/-!
# From the first byte of a connection

An inbound connection reads two messages for the handshake and hands its parser to the
reader task, with whatever the last chunk held behind them.  When the handshake succeeds
is a matter of the bytes that have come in, and the reader task goes on where it ends.
-/

namespace FreeswitchEsl

open Text Transition Incremental

variable {X : Crates}

/-! ## One message -/

/-- A parser that has asked for more and got a chunk reads as if it had held both. -/
theorem frame_of_added {p q q' : EslParser} {chunk : Bytes} {result : EslResult Unit}
    (hparse : p.parseMessage X = (.ok none, q)) (hadd : q.addData chunk = (result, q'))
    (x : Bytes) :
    frame X p.state (p.buffer.data ++ (chunk ++ x)) = frame X q'.state (q'.buffer.data ++ x) := by
  obtain rfl := EslParser.of_addData hadd
  dsimp only
  rw [frame_append, frame_of_none hparse, EslBuffer.data_extendFromSlice, List.append_assoc]
  rfl

/-- A message comes from the buffer, or from further on behind the next chunk. -/
theorem recvMessage_cases {p p' : EslParser} {chunks unread : List Bytes} {m : EslMessage}
    (h : recvMessage X p chunks = .message m p' unread) :
    p.parseMessage X = (.ok (some m), p') ∧ unread = chunks ∨
      ∃ chunk rest q q', chunks = chunk :: rest ∧ p.parseMessage X = (.ok none, q) ∧
        q.addData chunk = (.ok (), q') ∧ recvMessage X q' rest = .message m p' unread := by
  cases chunks with
  | nil =>
      rw [recvMessage] at h
      split at h
      · cases h
      · rename_i hparse
        cases h
        exact Or.inl ⟨hparse, rfl⟩
      · cases h
  | cons chunk rest =>
      rw [recvMessage] at h
      split at h
      · cases h
      · rename_i hparse
        cases h
        exact Or.inl ⟨hparse, rfl⟩
      · rename_i q hparse
        dsimp only at h
        split at h
        · cases h
        · rename_i q' hadd
          exact Or.inr ⟨chunk, rest, q, q', rfl, hparse, hadd, h⟩

/-- The message is the first frame of what the parser holds and of some of the chunks. -/
theorem frame_of_recvMessage {p p' : EslParser} {chunks unread : List Bytes} {m : EslMessage}
    (h : recvMessage X p chunks = .message m p' unread) :
    unread <:+ chunks ∧ ∃ front, front ++ unread.flatten = chunks.flatten ∧
      frame X p.state (p.buffer.data ++ front) = .emit m p'.state p'.buffer.data := by
  induction chunks generalizing p with
  | nil =>
      rcases recvMessage_cases h with ⟨hparse, rfl⟩ | ⟨_, _, _, _, hchunks, -⟩
      · refine ⟨List.suffix_rfl, [], rfl, ?_⟩
        rw [List.append_nil]
        exact frame_of_some hparse
      · cases hchunks
  | cons chunk chunks ih =>
      rcases recvMessage_cases h with ⟨hparse, rfl⟩ | ⟨_, _, q, q', hchunks, hparse, hadd, hrest⟩
      · refine ⟨List.suffix_rfl, [], rfl, ?_⟩
        rw [List.append_nil]
        exact frame_of_some hparse
      · obtain ⟨rfl, rfl⟩ := List.cons.inj hchunks
        obtain ⟨hsuffix, front, hfront, hframe⟩ := ih hrest
        refine ⟨hsuffix.trans (List.suffix_cons chunk chunks), chunk ++ front, ?_, ?_⟩
        · rw [List.append_assoc, hfront, List.flatten_cons]
        · rw [frame_of_added hparse hadd, hframe]

theorem length_le_of_frame_more {s s' : ParseState} {b r : Bytes}
    (h : frame X s b = .more s' r) : r.length ≤ b.length := by
  cases s with
  | waitingForBody messageType headers length =>
      simp only [frame, frameBody] at h
      split at h
      · split at h <;> cases h
      · cases h
        exact le_rfl
  | waitingForHeaders =>
      cases hpos : Pattern.find HEADER_TERMINATOR b with
      | none =>
          simp only [frame, hpos] at h
          cases h
          exact le_rfl
      | some pos =>
          simp only [frame, hpos] at h
          cases hblock : decodeHeaderBlock X (b.take pos) with
          | error e => simp [hblock] at h
          | ok block =>
              simp only [hblock, frameBody] at h
              split at h
              · split at h
                · split at h <;> cases h
                · cases h
                  rw [List.length_drop]
                  omega
              · cases h

/-- A message whose header block has not come in yet ends among the bytes to come. -/
theorem length_le_of_frame_emit {s : ParseState} {m : EslMessage} {b x r : Bytes}
    (hnone : Pattern.find HEADER_TERMINATOR b = none)
    (h : frame X .waitingForHeaders (b ++ x) = .emit m s r) : r.length ≤ x.length := by
  cases hpos : Pattern.find HEADER_TERMINATOR (b ++ x) with
  | none => simp [frame, hpos] at h
  | some pos =>
      have hlate : b.length < pos + 2 := by
        by_contra hle
        obtain ⟨hne, hocc, -⟩ := Pattern.find_eq_some_iff.mp hpos
        have hocc' : Pattern.OccursAt HEADER_TERMINATOR b pos :=
          (Pattern.occursAt_append_iff (not_lt.mp hle)).mp hocc
        rw [Pattern.find_eq_none_iff hne, ← Pattern.exists_occursAt_iff hne] at hnone
        exact hnone ⟨pos, hocc'⟩
      simp only [frame, hpos] at h
      cases hblock : decodeHeaderBlock X ((b ++ x).take pos) with
      | error e => simp [hblock] at h
      | ok block =>
          simp only [hblock] at h
          split at h
          · obtain ⟨-, -, rfl⟩ := frameBody_eq_emit h
            simp only [List.length_drop, List.length_append]
            omega
          · cases h
            simp only [List.length_drop, List.length_append]
            omega

/-- A message that the chunks hold whole is received, if it fits the buffer. -/
theorem recvMessage_of_frame {p : EslParser} {drained : Bool} {chunks : List Bytes}
    {m : EslMessage} {s : ParseState} {r : Bytes} (hfed : Fed X p drained)
    (hchunks : ∀ c ∈ chunks, c.length ≤ SOCKET_BUF_SIZE)
    (hframe : frame X p.state (p.buffer.data ++ chunks.flatten) = .emit m s r)
    (hfits : (p.buffer.data ++ chunks.flatten).length + SOCKET_BUF_SIZE ≤
      MAX_BUFFER_SIZE + r.length) :
    ∃ m' p' unread, recvMessage X p chunks = .message m' p' unread := by
  induction chunks generalizing p drained with
  | nil =>
      rw [List.flatten_nil, List.append_nil] at hframe
      obtain ⟨p', hparse, -⟩ := parseMessage_of_emit hframe
      refine ⟨m, p', [], ?_⟩
      rw [recvMessage, hparse]
  | cons chunk chunks ih =>
      obtain ⟨hchunk, hrest⟩ := List.forall_mem_cons.mp hchunks
      rw [List.flatten_cons] at hframe hfits
      rw [recvMessage]
      cases hparse : p.parseMessage X with
      | mk result q =>
          cases result with
          | error e =>
              rw [frame_append, frame_of_error hparse] at hframe
              cases hframe
          | ok message =>
              cases message with
              | some m' => exact ⟨m', q, chunk :: chunks, rfl⟩
              | none =>
                  dsimp only
                  have hq := hfed.asked hparse
                  have hlength := length_le_of_frame_more (frame_of_none hparse)
                  cases hadd : q.addData chunk with
                  | mk result q' =>
                      rw [frame_of_added hparse hadd] at hframe
                      cases result with
                      | ok u =>
                          refine ih (hq.added hadd) hrest hframe ?_
                          obtain rfl := EslParser.of_addData hadd
                          rw [EslBuffer.data_extendFromSlice]
                          simp only [List.length_append] at hfits ⊢
                          omega
                      | error e =>
                          -- only a header block without an end can exceed the limit
                          have hlimits := hq.addsWithinLimits hchunk
                          obtain ⟨hstate, hlarge, hnone, -⟩ :=
                            hlimits.overflow e (congrArg Prod.fst hadd)
                          obtain rfl := EslParser.of_addData hadd
                          dsimp only at hframe
                          rw [hstate, EslBuffer.data_extendFromSlice, List.append_assoc] at hframe
                          have hlate := length_le_of_frame_emit hnone hframe
                          simp only [List.length_append] at hfits hlarge hlate
                          omega

section Written

variable {m : WireMessage} {w rest behind : Bytes} {p : EslParser} {chunks : List Bytes}

/-- Where `recv_message` stands behind a written message. -/
theorem of_recvMessage_writes (hX : X.PercentLaws) (hw : m.Writes X w)
    (hstate : p.state = .waitingForHeaders)
    (hstream : p.buffer.data ++ (chunks.flatten ++ behind) = w ++ rest) {m' : EslMessage}
    {p' : EslParser} {unread : List Bytes}
    (h : recvMessage X p chunks = .message m' p' unread) :
    m' = m.decoded ∧ p'.state = .waitingForHeaders ∧
      p'.buffer.data ++ (unread.flatten ++ behind) = rest := by
  obtain ⟨-, front, hfront, hframe⟩ := frame_of_recvMessage h
  have hwhole : p.buffer.data ++ front ++ (unread.flatten ++ behind) = w ++ rest := by
    rw [← hstream, ← hfront]
    simp only [List.append_assoc]
  have hemit := frame_of_writes hX hw rest
  rw [← hwhole, frame_append, ← hstate, hframe] at hemit
  obtain ⟨hm, hs, hr⟩ := Step.emit.inj hemit
  exact ⟨hm, hs.trans hstate, hr⟩

/-- A written message is received exactly when the chunks hold all of it. -/
theorem recvMessage_writes_iff (hX : X.PercentLaws) (hw : m.Writes X w)
    (hfits : w.length + SOCKET_BUF_SIZE ≤ MAX_BUFFER_SIZE) {drained : Bool}
    (hfed : Fed X p drained) (hstate : p.state = .waitingForHeaders)
    (hchunks : ∀ c ∈ chunks, c.length ≤ SOCKET_BUF_SIZE)
    (hstream : p.buffer.data ++ (chunks.flatten ++ behind) = w ++ rest) :
    (∃ m' p' unread, recvMessage X p chunks = .message m' p' unread) ↔
      w.length ≤ (p.buffer.data ++ chunks.flatten).length := by
  constructor
  · rintro ⟨m', p', unread, h⟩
    obtain ⟨-, -, hrest⟩ := of_recvMessage_writes hX hw hstate hstream h
    have hlength := congrArg List.length hstream
    rw [← hrest] at hlength
    simp only [List.length_append] at hlength ⊢
    omega
  · intro hle
    rw [← List.append_assoc] at hstream
    have hfront : w <+: p.buffer.data ++ chunks.flatten :=
      List.prefix_of_prefix_length_le ⟨rest, hstream.symm⟩ ⟨behind, rfl⟩ hle
    obtain ⟨later, hlater⟩ := hfront
    refine recvMessage_of_frame hfed hchunks (m := m.decoded) (s := .waitingForHeaders)
      (r := later) ?_ ?_
    · rw [hstate, ← hlater]
      exact frame_of_writes hX hw later
    · rw [← hlater, List.length_append]
      omega

end Written

/-! ## The handshake -/

theorem authenticate_eq_ok_iff {order : HashOrder} {method : AuthMethod} {p p' : EslParser}
    {chunks unread : List Bytes} {ending : StreamEnd} {written : Except Str Unit} :
    authenticate X order method p chunks ending written = .ok (p', unread) ↔
      ∃ request q middle answer, recvMessage X p chunks = .message request q middle ∧
        request.messageType = .authRequest ∧ IsOk (method.command.toWireFormat order) ∧
        written = .ok () ∧ recvMessage X q middle = .message answer p' unread ∧
        answer.intoResponse.isSuccess = true := by
  constructor
  · intro h
    obtain ⟨⟨request, q, middle⟩, hfirst, h⟩ := bind_eq_ok.mp h
    dsimp only at h
    split at h
    · cases h
    · rename_i htype
      obtain ⟨text, htext, h⟩ := bind_eq_ok.mp h
      cases written with
      | error e => cases h
      | ok u =>
          obtain ⟨⟨answer, q', rest⟩, hsecond, h⟩ := bind_eq_ok.mp h
          dsimp only at h
          split at h
          · rename_i hsuccess
            cases h
            exact ⟨request, q, middle, answer, toResult_eq_ok.mp hfirst, not_not.mp htype,
              ⟨text, htext⟩, rfl, toResult_eq_ok.mp hsecond, hsuccess⟩
          · cases h
  · rintro ⟨request, q, middle, answer, hfirst, htype, ⟨text, htext⟩, rfl, hsecond, hsuccess⟩
    refine bind_eq_ok.mpr ⟨(request, q, middle), toResult_eq_ok.mpr hfirst, ?_⟩
    dsimp only
    rw [if_neg (not_not.mpr htype)]
    refine bind_eq_ok.mpr ⟨text, htext, ?_⟩
    refine bind_eq_ok.mpr ⟨(answer, p', unread), toResult_eq_ok.mpr hsecond, ?_⟩
    dsimp only
    rw [if_pos hsuccess]

/-- Credentials that can be sent: no line break in them, and a domain in the user name. -/
def AuthMethod.Sendable : AuthMethod → Prop
  | .password pw => ¬ HasLineBreak pw
  | .user name pw => '@' ∈ name ∧ ¬ HasLineBreak name ∧ ¬ HasLineBreak pw

theorem AuthMethod.sendable_iff (order : HashOrder) {method : AuthMethod} :
    method.Sendable ↔
      checkUsername method = .ok () ∧ IsOk (method.command.toWireFormat order) := by
  rw [EslCommand.isOk_toWireFormat_iff]
  cases method with
  | password pw => simp [Sendable, checkUsername, command, EslCommand.HasText]
  | user name pw =>
      by_cases hdomain : '@' ∈ name <;>
        simp [Sendable, checkUsername, command, EslCommand.HasText, hdomain]

theorem connectInner_eq_ok_iff {order : HashOrder} {method : AuthMethod}
    {connected : EslResult Unit} {chunks : List Bytes} {ending : StreamEnd}
    {written : Except Str Unit} {r : EslParser × List Bytes} :
    connectInner X order method connected chunks ending written = .ok r ↔
      checkUsername method = .ok () ∧ connected = .ok () ∧
        authenticate X order method EslParser.new chunks ending written = .ok r := by
  constructor
  · intro h
    obtain ⟨⟨⟩, hname, h⟩ := bind_eq_ok.mp h
    obtain ⟨⟨⟩, hconnected, h⟩ := bind_eq_ok.mp h
    exact ⟨hname, hconnected, h⟩
  · rintro ⟨hname, hconnected, h⟩
    exact bind_eq_ok.mpr ⟨(), hname, bind_eq_ok.mpr ⟨(), hconnected, h⟩⟩

section Login

variable {order : HashOrder} {method : AuthMethod} {connected : EslResult Unit}
  {request answer : WireMessage} {w₁ w₂ rest behind : Bytes} {chunks : List Bytes}
  {ending : StreamEnd} {written : Except Str Unit}

/-- The handshake takes the two messages and leaves what comes behind them. -/
theorem left_of_authenticate (hX : X.PercentLaws) (hrequest : request.Writes X w₁)
    (hanswer : answer.Writes X w₂) (hstream : chunks.flatten ++ behind = w₁ ++ (w₂ ++ rest))
    {p' : EslParser} {unread : List Bytes}
    (h : authenticate X order method EslParser.new chunks ending written = .ok (p', unread)) :
    request.decoded.messageType = .authRequest ∧
      answer.decoded.intoResponse.isSuccess = true ∧ p'.state = .waitingForHeaders ∧
      p'.buffer.data ++ (unread.flatten ++ behind) = rest := by
  obtain ⟨_, q, middle, _, hfirst, htype, -, -, hsecond, hsuccess⟩ :=
    authenticate_eq_ok_iff.mp h
  obtain ⟨rfl, hstate, hstream'⟩ := of_recvMessage_writes hX hrequest rfl hstream hfirst
  obtain ⟨rfl, hstate', hleft⟩ := of_recvMessage_writes hX hanswer hstate hstream' hsecond
  exact ⟨htype, hsuccess, hstate', hleft⟩

/-- A server that writes its request, its answer and whatever else: the connection is
made exactly when the credentials can be sent and are, the messages are a request for
them and their acceptance, and both have come in whole, however they were cut. -/
theorem connect_iff (hX : X.PercentLaws) (hrequest : request.Writes X w₁)
    (hanswer : answer.Writes X w₂) (hstream : chunks.flatten ++ behind = w₁ ++ (w₂ ++ rest))
    (hfits₁ : w₁.length + SOCKET_BUF_SIZE ≤ MAX_BUFFER_SIZE)
    (hfits₂ : w₂.length + SOCKET_BUF_SIZE ≤ MAX_BUFFER_SIZE)
    (hchunks : ∀ c ∈ chunks, c.length ≤ SOCKET_BUF_SIZE) :
    (∃ r, connectInner X order method connected chunks ending written = .ok r) ↔
      method.Sendable ∧ connected = .ok () ∧ written = .ok () ∧
        request.decoded.messageType = .authRequest ∧
        answer.decoded.intoResponse.isSuccess = true ∧
        (w₁ ++ w₂).length ≤ chunks.flatten.length := by
  have hfirst_iff := recvMessage_writes_iff hX hrequest hfits₁ Fed.new rfl hchunks hstream
  constructor
  · rintro ⟨⟨p', unread⟩, h⟩
    obtain ⟨hname, hconnected, h⟩ := connectInner_eq_ok_iff.mp h
    obtain ⟨htype, hsuccess, -, hleft⟩ := left_of_authenticate hX hrequest hanswer hstream h
    obtain ⟨-, -, -, -, -, -, hsendable, hwritten, -⟩ := authenticate_eq_ok_iff.mp h
    refine ⟨(AuthMethod.sendable_iff order).mpr ⟨hname, hsendable⟩, hconnected, hwritten, htype,
      hsuccess, ?_⟩
    have hlength := congrArg List.length hstream
    rw [← hleft] at hlength
    simp only [List.length_append] at hlength ⊢
    omega
  · rintro ⟨hsendable, hconnected, hwritten, htype, hsuccess, hlength⟩
    obtain ⟨hname, hsendable⟩ := (AuthMethod.sendable_iff order).mp hsendable
    rw [List.length_append] at hlength
    obtain ⟨_, q, middle, hfirst⟩ := hfirst_iff.mpr (le_trans (Nat.le_add_right _ _) hlength)
    obtain ⟨rfl, hstate, hstream'⟩ := of_recvMessage_writes hX hrequest rfl hstream hfirst
    have hmiddle : ∀ c ∈ middle, c.length ≤ SOCKET_BUF_SIZE :=
      fun c hc ↦ hchunks c ((frame_of_recvMessage hfirst).1.mem hc)
    -- the answer is in what is left of the chunks
    have hheld : w₂.length ≤ (q.buffer.data ++ middle.flatten).length := by
      have hlength' := congrArg List.length hstream
      have hlength'' := congrArg List.length hstream'
      simp only [List.length_append] at hlength' hlength'' ⊢
      omega
    obtain ⟨_, p', unread, hsecond⟩ := (recvMessage_writes_iff hX hanswer hfits₂
      (fed_of_recvMessage Fed.new hfirst) hstate hmiddle hstream').mpr hheld
    obtain ⟨rfl, -, -⟩ := of_recvMessage_writes hX hanswer hstate hstream' hsecond
    exact ⟨(p', unread), connectInner_eq_ok_iff.mpr ⟨hname, hconnected,
      authenticate_eq_ok_iff.mpr ⟨_, q, middle, _, hfirst, htype, hsendable, hwritten, hsecond,
        hsuccess⟩⟩⟩

end Login

theorem WireMessage.none_fits (b : Str) (hb : none = some b) :
    b ≠ [] ∧ (utf8Encode b).length ≤ MAX_MESSAGE_SIZE := by
  cases hb

def WireMessage.authRequest : WireMessage where
  headers := [(HEADER_CONTENT_TYPE, CONTENT_TYPE_AUTH_REQUEST)]
  body := none
  contentType := CONTENT_TYPE_AUTH_REQUEST
  nodup := by decide
  name_clean := by decide
  contentLength_notMem := by decide
  contentType_mem := by decide
  body_fits := none_fits

def WireMessage.accepted : WireMessage where
  headers := [(HEADER_CONTENT_TYPE, CONTENT_TYPE_COMMAND_REPLY),
    (HEADER_REPLY_TEXT, "+OK accepted".toList)]
  body := none
  contentType := CONTENT_TYPE_COMMAND_REPLY
  nodup := by decide
  name_clean := by decide
  contentLength_notMem := by decide
  contentType_mem := by decide
  body_fits := none_fits

def requestFrame : Bytes := utf8Encode "Content-Type: auth/request\n\n".toList

def acceptedFrame : Bytes :=
  utf8Encode "Content-Type: command/reply\nReply-Text: +OK accepted\n\n".toList

theorem writes_requestFrame : WireMessage.authRequest.Writes .percentOnly requestFrame := by
  refine ⟨[(HEADER_CONTENT_TYPE, CONTENT_TYPE_AUTH_REQUEST)],
    ["Content-Type: auth/request".toList], .refl _, .cons ⟨_, .raw ?_ ?_ ?_, rfl⟩ .nil, by decide⟩
  all_goals decide

theorem writes_acceptedFrame : WireMessage.accepted.Writes .percentOnly acceptedFrame := by
  refine ⟨[(HEADER_CONTENT_TYPE, CONTENT_TYPE_COMMAND_REPLY),
      (HEADER_REPLY_TEXT, "+OK accepted".toList)],
    ["Content-Type: command/reply".toList, "Reply-Text: +OK accepted".toList], .refl _, ?_,
    by decide⟩
  refine .cons ⟨_, .raw ?_ ?_ ?_, rfl⟩ (.cons ⟨_, .raw ?_ ?_ ?_, rfl⟩ .nil)
  all_goals decide

/-- A login whose second chunk ends amid the first event. -/
def loginChunks : List Bytes :=
  [requestFrame.take 10, requestFrame.drop 10 ++ (acceptedFrame ++ talkFrame.take 40),
    talkFrame.drop 40]

theorem flatten_loginChunks :
    loginChunks.flatten ++ [] = requestFrame ++ (acceptedFrame ++ [talkFrame].flatten) := by
  decide +kernel

theorem connect_iff_talk :
    ∃ r, connectInner .percentOnly .byName (.password "ClueCon".toList) (.ok ()) loginChunks .eof
      (.ok ()) = .ok r := by
  refine (connect_iff Crates.percentOnly_percentLaws writes_requestFrame writes_acceptedFrame
    flatten_loginChunks ?_ ?_ ?_).mpr ⟨?_, rfl, rfl, ?_, ?_, ?_⟩
  case refine_4 =>
    change ¬ HasLineBreak "ClueCon".toList
    unfold HasLineBreak
    decide
  all_goals decide +kernel

/-! ## Behind the login -/

/-- Nothing that the server writes behind its answer is lost between the handshake and
the reader task, wherever the chunks are cut: while nothing is dropped, the application
receives the results for these events in order, and all of them once they have arrived. -/
theorem connect_transports (hX : X.PercentLaws) {request answer : WireMessage}
    {ms : List WireMessage} {w₁ w₂ : Bytes} {ws : List Bytes} (hrequest : request.Writes X w₁)
    (hanswer : answer.Writes X w₂) (hws : List.Forall₂ (fun m w ↦ m.Writes X w) ms ws)
    {chunks : List Bytes} {behind : Bytes}
    (hstream : chunks.flatten ++ behind = w₁ ++ (w₂ ++ ws.flatten)) {order : HashOrder}
    {method : AuthMethod} {connected : EslResult Unit} {ending : StreamEnd}
    {written : Except Str Unit} {parser : EslParser} {unread : List Bytes}
    (hconnect : connectInner X order method connected chunks ending written =
      .ok (parser, unread))
    {eventQueueSize : Nat} {as : List Act} {t : Connection} {ahead : Bytes}
    (hrun : run (Connection.step X) (.init eventQueueSize parser) as = some t)
    (hbytes : as.flatMap Act.incoming ++ ahead = unread.flatten ++ behind)
    (halive : t.delivery.channel.receiverAlive = true) (hdropped : t.delivery.dropped = []) :
    let values := (t.delivery.channel.received ++ t.delivery.channel.queue).map Sent.value
    values <+: WireMessage.eventResults X ms ∧
      (ahead = [] → t.reader.pc = .reading → values = WireMessage.eventResults X ms) := by
  obtain ⟨-, -, hauth⟩ := connectInner_eq_ok_iff.mp hconnect
  obtain ⟨-, -, hstate, hleft⟩ := left_of_authenticate hX hrequest hanswer hstream hauth
  rw [← hbytes] at hleft
  have hinit : Transporting ms (.init eventQueueSize parser) (as.flatMap Act.incoming ++ ahead) :=
    Transporting.init hX hws eventQueueSize (fed_of_connectInner hconnect) hstate hleft
  exact (hinit.run hrun).values halive hdropped

/-- The event is received behind the login: its second half is read by the reader task. -/
theorem connect_transports_talk :
    ∃ parser unread t, connectInner .percentOnly .byName (.password "ClueCon".toList) (.ok ())
        loginChunks .eof (.ok ()) = .ok (parser, unread) ∧
      run (Connection.step .percentOnly) (.init 1 parser)
        [.reader, .read (.data (talkFrame.drop 40)), .reader, .reader, .reader] = some t ∧
      (t.delivery.channel.received ++ t.delivery.channel.queue).map Sent.value =
        WireMessage.eventResults .percentOnly [WireMessage.talk] := by
  have hlogin : (connectInner .percentOnly .byName (.password "ClueCon".toList) (.ok ())
      loginChunks .eof (.ok ())).toOption.any (fun r ↦ r.2 = [talkFrame.drop 40] ∧
        (run (Connection.step .percentOnly) (.init 1 r.1)
          [.reader, .read (.data (talkFrame.drop 40)), .reader, .reader, .reader]).any (fun t ↦
            t.delivery.channel.receiverAlive = true ∧ t.delivery.dropped = [] ∧
              t.reader.pc.isReading = true) = true) = true := by
    decide +kernel
  obtain ⟨⟨parser, unread⟩, hsome, hrest⟩ := (Option.any_eq_true _ _).mp hlogin
  obtain ⟨rfl, hrun⟩ := of_decide_eq_true hrest
  have hconnect := toOption_eq_some.mp hsome
  obtain ⟨t, ht, halive, hdropped, hreading⟩ := exists_run_of_any hrun
  have h := connect_transports Crates.percentOnly_percentLaws writes_requestFrame
    writes_acceptedFrame (.cons writes_talkFrame .nil) flatten_loginChunks hconnect ht rfl
    halive hdropped
  exact ⟨parser, _, t, hconnect, ht, h.2 rfl (ReaderPc.of_isReading hreading)⟩

end FreeswitchEsl
