import FreeswitchEsl.Command
import FreeswitchEsl.Protocol.Segmentation

/-!
# The handshake

An inbound connection waits for an authentication request, sends the credentials
and judges the next message of the stream.
-/

namespace FreeswitchEsl

open Text

variable (X : Crates) (order : HashOrder)

def DEFAULT_TIMEOUT_MS : Nat := 2000

inductive AuthMethod where
  | password (password : Str)
  | user (user password : Str)

def AuthMethod.command : AuthMethod → EslCommand
  | .password pw => .auth pw
  | .user name pw => .userAuth name pw

/-- What ends a stream whose chunks have all been read. -/
inductive StreamEnd where
  | eof
  | ioError (error : Str)
  | timedOut

def StreamEnd.error : StreamEnd → EslError
  | .eof => .connectionClosed
  | .ioError e => .io e
  | .timedOut => .timeout DEFAULT_TIMEOUT_MS

/-- The result of `recv_message` on a stream that ends as given. -/
def Received.toResult (ending : StreamEnd) :
    Received → EslResult (EslMessage × EslParser × List Bytes)
  | .message m p unread => .ok (m, p, unread)
  | .stopped (.parseError e) => .error e
  | .stopped (.bufferError e) => .error e
  | .stopped (.waiting _) => .error ending.error

/-- `authenticate` on a stream of chunks; `written` is the outcome of writing the
command.  A success hands on the parser and the chunks that are still unread. -/
def authenticate (method : AuthMethod) (p : EslParser) (chunks : List Bytes)
    (ending : StreamEnd) (written : Except Str Unit) : EslResult (EslParser × List Bytes) := do
  let (message, p, chunks) ← (recvMessage X p chunks).toResult ending
  if message.messageType ≠ .authRequest then
    .error (.protocolError "Expected auth request".toList)
  else
    let _ ← method.command.toWireFormat order
    match written with
    | .error e => .error (.io e)
    | .ok () =>
        let (responseMsg, p, chunks) ← (recvMessage X p chunks).toResult ending
        let response := responseMsg.intoResponse
        if response.isSuccess then .ok (p, chunks)
        else .error (.authenticationFailed
          (response.replyText.getD "Authentication failed".toList))

/-- The username check of `connect_inner`. -/
def checkUsername : AuthMethod → EslResult Unit
  | .password _ => .ok ()
  | .user user _ =>
      if '@' ∈ user then .ok ()
      else .error (.authenticationFailed ("Invalid username format '".toList ++ user ++
        "': must be user@domain (e.g., admin@default)".toList))

/-- `connect_inner` up to the spawning of the reader task; `connected` is the
outcome of the TCP connect. -/
def connectInner (method : AuthMethod) (connected : EslResult Unit) (chunks : List Bytes)
    (ending : StreamEnd) (written : Except Str Unit) : EslResult (EslParser × List Bytes) := do
  checkUsername method
  connected
  authenticate X order method EslParser.new chunks ending written

/-! ## The messages of the stream -/

/-- The messages that a stream holds, however it is cut. -/
def streamMessages (p : EslParser) (chunks : List Bytes) : List EslMessage :=
  (readerLoop X p chunks).1

theorem toResult_eq_ok {r : Received} {ending : StreamEnd} {m : EslMessage} {p : EslParser}
    {unread : List Bytes} : r.toResult ending = .ok (m, p, unread) ↔ r = .message m p unread := by
  cases r with
  | message m' p' unread' => simp [Received.toResult]
  | stopped outcome => cases outcome <;> simp [Received.toResult]

theorem streamMessages_of_recvMessage {p p' : EslParser} {chunks unread : List Bytes}
    {m : EslMessage} (h : recvMessage X p chunks = .message m p' unread) :
    streamMessages X p chunks = m :: streamMessages X p' unread := by
  rw [streamMessages, readerLoop_of_recvMessage, h]
  rfl

theorem recvMessage_of_streamMessages {p : EslParser} {chunks : List Bytes} {m : EslMessage}
    {ms : List EslMessage} (h : streamMessages X p chunks = m :: ms) :
    ∃ p' unread, recvMessage X p chunks = .message m p' unread ∧
      streamMessages X p' unread = ms := by
  rw [streamMessages, readerLoop_of_recvMessage] at h
  cases hrecv : recvMessage X p chunks with
  | stopped outcome => simp [hrecv] at h
  | message m' p' unread =>
      rw [hrecv] at h
      obtain ⟨rfl, rfl⟩ := List.cons.inj h
      exact ⟨p', unread, rfl, rfl⟩

/-! ## When a login is a login -/

/-- The handshake succeeds exactly if an authentication request comes first, the
credentials can be sent, and the next message counts as a success. -/
theorem authenticate_isOk_iff (method : AuthMethod) (p : EslParser) (chunks : List Bytes)
    (ending : StreamEnd) (written : Except Str Unit) :
    (∃ r, authenticate X order method p chunks ending written = .ok r) ↔
      ∃ request answer rest w, streamMessages X p chunks = request :: answer :: rest ∧
        request.messageType = .authRequest ∧ method.command.toWireFormat order = .ok w ∧
          written = .ok () ∧ answer.intoResponse.isSuccess = true := by
  constructor
  · rintro ⟨r, h⟩
    obtain ⟨⟨request, p', unread⟩, hfirst, h⟩ := bind_eq_ok.mp h
    have hfirst := streamMessages_of_recvMessage X (toResult_eq_ok.mp hfirst)
    dsimp only at h
    split at h
    · cases h
    · rename_i htype
      obtain ⟨w, hw, h⟩ := bind_eq_ok.mp h
      cases written with
      | error e => cases h
      | ok u =>
          obtain ⟨⟨answer, p'', unread'⟩, hsecond, h⟩ := bind_eq_ok.mp h
          have hsecond := streamMessages_of_recvMessage X (toResult_eq_ok.mp hsecond)
          dsimp only at h
          split at h
          · rename_i hsuccess
            refine ⟨request, answer, streamMessages X p'' unread', w, ?_, not_not.mp htype, hw,
              rfl, hsuccess⟩
            rw [hfirst, hsecond]
          · cases h
  · rintro ⟨request, answer, rest, w, hmessages, htype, hw, rfl, hsuccess⟩
    obtain ⟨p', unread, hfirst, hmessages⟩ := recvMessage_of_streamMessages X hmessages
    obtain ⟨p'', unread', hsecond, -⟩ := recvMessage_of_streamMessages X hmessages
    refine ⟨(p'', unread'), ?_⟩
    refine bind_eq_ok.mpr ⟨(request, p', unread), toResult_eq_ok.mpr hfirst, ?_⟩
    dsimp only
    rw [if_neg (not_not.mpr htype)]
    refine bind_eq_ok.mpr ⟨w, hw, ?_⟩
    refine bind_eq_ok.mpr ⟨(answer, p'', unread'), toResult_eq_ok.mpr hsecond, ?_⟩
    dsimp only
    rw [if_pos hsuccess]

/-- The server accepts the credentials: a command reply that starts with `+OK`. -/
def Accepts (answer : EslMessage) : Prop :=
  answer.messageType = .commandReply ∧
    ∃ t, answer.intoResponse.replyText = some t ∧ "+OK".toList <+: t

/-- A success of the handshake is an authentication request followed by the
acceptance of the credentials. -/
def SoundLogin (method : AuthMethod) (chunks : List Bytes) (ending : StreamEnd)
    (written : Except Str Unit) : Prop :=
  ∀ r, authenticate X order method EslParser.new chunks ending written = .ok r →
    ∃ request answer rest, streamMessages X EslParser.new chunks = request :: answer :: rest ∧
      request.messageType = .authRequest ∧ Accepts answer

/-- The answer has a reply text, and a positive one only as a command reply. -/
def ClearAnswer (answer : EslMessage) : Prop :=
  ∃ t, answer.intoResponse.replyText = some t ∧ t ≠ [] ∧
    ("+OK".toList <+: t → answer.messageType = .commandReply)

theorem isSuccess_iff {r : EslResponse} :
    r.isSuccess = true ↔ ∀ t, r.replyText = some t → t = [] ∨ "+OK".toList <+: t := by
  unfold EslResponse.isSuccess EslResponse.status
  cases r.replyText with
  | none => simp
  | some t =>
      simp only [Option.some.injEq, forall_eq', decide_eq_true_eq, List.isPrefixOf_iff_prefix]
      by_cases hnil : t = []
      · simp only [hnil, if_true, true_or]
      · rw [if_neg hnil]
        by_cases hok : "+OK".toList <+: t
        · simp only [hok, if_true, or_true]
        · rw [if_neg hok]
          split <;> simp only [reduceCtorEq, hnil, hok, or_self]

/-- The handshake is sound exactly when every message that can come as the answer
to the credentials is a clear one. -/
theorem soundLogin_iff_clearAnswer (method : AuthMethod) (chunks : List Bytes)
    (ending : StreamEnd) (written : Except Str Unit) :
    SoundLogin X order method chunks ending written ↔
      ∀ request answer rest w,
        streamMessages X EslParser.new chunks = request :: answer :: rest →
          request.messageType = .authRequest → method.command.toWireFormat order = .ok w →
            written = .ok () → ClearAnswer answer := by
  constructor
  · intro hsound request answer rest w hmessages htype hw hwritten
    by_cases hsuccess : answer.intoResponse.isSuccess = true
    · have hok := (authenticate_isOk_iff X order method EslParser.new chunks ending written).mpr
        ⟨request, answer, rest, w, hmessages, htype, hw, hwritten, hsuccess⟩
      obtain ⟨r, hr⟩ := hok
      obtain ⟨request', answer', rest', hmessages', -, hreply, t, ht, hprefix⟩ := hsound r hr
      rw [hmessages] at hmessages'
      obtain ⟨-, h⟩ := List.cons.inj hmessages'
      obtain ⟨rfl, -⟩ := List.cons.inj h
      refine ⟨t, ht, ?_, fun _ ↦ hreply⟩
      rintro rfl
      simp at hprefix
    · rw [isSuccess_iff] at hsuccess
      push Not at hsuccess
      obtain ⟨t, ht, hne, hnot⟩ := hsuccess
      exact ⟨t, ht, hne, fun hprefix ↦ absurd hprefix hnot⟩
  · intro hclear r hr
    obtain ⟨request, answer, rest, w, hmessages, htype, hw, hwritten, hsuccess⟩ :=
      (authenticate_isOk_iff X order method EslParser.new chunks ending written).mp ⟨r, hr⟩
    obtain ⟨t, ht, hne, hreply⟩ := hclear request answer rest w hmessages htype hw hwritten
    have hprefix : "+OK".toList <+: t := by
      rcases isSuccess_iff.mp hsuccess t ht with rfl | hprefix
      · exact absurd rfl hne
      · exact hprefix
    exact ⟨request, answer, rest, hmessages, htype, hreply hprefix, t, ht, hprefix⟩

theorem not_soundLogin_disconnect :
    let chunks := [utf8Encode "Content-Type: auth/request\n\n".toList,
      utf8Encode "Content-Type: text/disconnect-notice\n\n".toList]
    ¬ SoundLogin .percentOnly .byName (.password "ClueCon".toList) chunks .eof (.ok ()) := by
  intro chunks hsound
  have hok : (authenticate .percentOnly .byName (.password "ClueCon".toList) EslParser.new chunks
      .eof (.ok ())).toBool = true := by decide +kernel
  cases hr : authenticate .percentOnly .byName (.password "ClueCon".toList) EslParser.new chunks
      .eof (.ok ()) with
  | error e =>
      rw [hr] at hok
      cases hok
  | ok r =>
      obtain ⟨request, answer, rest, hmessages, -, hreply, -⟩ := hsound r hr
      have htypes : (streamMessages .percentOnly EslParser.new chunks).map
          EslMessage.messageType = [.authRequest, .disconnect] := by decide +kernel
      rw [hmessages] at htypes
      obtain ⟨-, htypes⟩ := List.cons.inj htypes
      rw [(List.cons.inj htypes).1] at hreply
      cases hreply

end FreeswitchEsl
