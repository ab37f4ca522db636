import FreeswitchEsl.Connection.System
import FreeswitchEsl.Percent
import FreeswitchEsl.Protocol.HeaderBlock

/-!
# Reading a channel variable

FreeSWITCH answers `getvar` with the bare value behind `Reply-Text`, and the client
hands out the header as the parser has read it.
-/

namespace FreeswitchEsl

open Text Transition

variable {X : Crates}

/-! ## The command -/

/-- `EslClient::getvar`, from the result of its `send_command`. -/
def getvar (result : EslResult EslResponse) : EslResult Str := do
  let response ← result
  return response.replyText.getD []

/-- The reply to `getvar`: the value has neither a prefix nor an encoding. -/
def getvarReply (value : Str) : Str :=
  "Content-Type: command/reply\nReply-Text: ".toList ++ value ++ "\n\n".toList

/-- The escapes of the value, if it has any, stand for bytes that are not UTF-8. -/
def KeptRaw (value : Str) : Prop :=
  Percent.hasEscape (utf8Encode value) = true →
    utf8Decode (Percent.decode (utf8Encode value)) = none

instance : DecidablePred KeptRaw := fun value ↦
  inferInstanceAs (Decidable (Percent.hasEscape (utf8Encode value) = true → _ = none))

theorem decoded_eq_iff (hX : X.DecodesPercent) (value : Str) :
    (X.percentDecodeUtf8 value).getD value = value ↔ KeptRaw value := by
  rw [hX, KeptRaw]
  cases hdecode : utf8Decode (Percent.decode (utf8Encode value)) with
  | none => simp
  | some decoded =>
      have hbytes := utf8Encode_of_utf8Decode hdecode
      have hraw : decoded = value ↔ Percent.hasEscape (utf8Encode value) = false := by
        rw [← Percent.decode_eq_self_iff, ← hbytes]
        refine ⟨congrArg utf8Encode, fun h ↦ ?_⟩
        simpa using congrArg utf8Decode h
      simp [hraw]

/-! ## The reply -/

section Reply

variable {value : Str}

/-- The two lines of the reply. -/
def getvarLines (value : Str) : List (Str × Str) :=
  [(HEADER_CONTENT_TYPE, ' ' :: CONTENT_TYPE_COMMAND_REPLY), (HEADER_REPLY_TEXT, ' ' :: value)]

theorem readHeaders_getvarLines (hX : X.DecodesPercent) (htrim : Trimmed value) :
    readHeaders X (getvarLines value) =
      HeaderMap.ofList [(HEADER_CONTENT_TYPE, CONTENT_TYPE_COMMAND_REPLY),
        (HEADER_REPLY_TEXT, (X.percentDecodeUtf8 value).getD value)] := by
  have hspace : isWhitespace ' ' = true := by decide
  have htype : Trimmed CONTENT_TYPE_COMMAND_REPLY := by decide
  have hnames : Trimmed HEADER_CONTENT_TYPE ∧ Trimmed HEADER_REPLY_TEXT := by decide
  have hplain : X.percentDecodeUtf8 CONTENT_TYPE_COMMAND_REPLY = some CONTENT_TYPE_COMMAND_REPLY :=
    hX.decode_plain (by decide)
  simp only [readHeaders, getvarLines, List.map_cons, List.map_nil, readHeader,
    trim_cons_of_whitespace hspace]
  rw [hnames.1, hnames.2, htype, htrim, hplain]
  rfl

theorem getvarReply_eq (value : Str) :
    getvarReply value =
      (getvarLines value).flatMap (fun h ↦ rawLine h ++ ['\n']) ++ ['\n'] := by
  have hstart : "Content-Type: command/reply\nReply-Text: ".toList =
      rawLine (HEADER_CONTENT_TYPE, ' ' :: CONTENT_TYPE_COMMAND_REPLY) ++
        '\n' :: (HEADER_REPLY_TEXT ++ [':', ' ']) := by
    decide
  have hend : "\n\n".toList = ['\n', '\n'] := by decide
  unfold getvarReply
  simp only [hstart, hend]
  simp [getvarLines, rawLine]

/-- The reply is one message, with the decoded value in its `Reply-Text`. -/
theorem frame_getvarReply (hX : X.DecodesPercent) (hnewline : '\n' ∉ value)
    (htrim : Trimmed value) (rest : Bytes) :
    ∃ message, frame X .waitingForHeaders (utf8Encode (getvarReply value) ++ rest) =
        .emit message .waitingForHeaders rest ∧
      message.messageType = .commandReply ∧
      message.headers.get HEADER_REPLY_TEXT = some ((X.percentDecodeUtf8 value).getD value) := by
  have hread := readHeaders_getvarLines hX htrim
  have hcolon : ∀ h ∈ getvarLines value, ':' ∉ h.1 := by
    simp only [getvarLines, List.forall_mem_cons]
    exact ⟨by decide, by decide, by simp⟩
  have hlines : ∀ h ∈ getvarLines value, '\n' ∉ h.1 ∧ '\n' ∉ h.2 := by
    simp only [getvarLines, List.forall_mem_cons]
    refine ⟨by decide, ⟨by decide, ?_⟩, by simp⟩
    simpa using hnewline
  have htype : (readHeaders X (getvarLines value)).get HEADER_CONTENT_TYPE =
      some CONTENT_TYPE_COMMAND_REPLY := by
    rw [hread]
    exact HeaderMap.get_ofList_of_mem (by simp; decide) (by simp)
  have hlength : bodyLength (readHeaders X (getvarLines value)) = .ok 0 := by
    rw [bodyLength, hread, HeaderMap.get_ofList_of_notMem (by simp; decide)]
  have hblock := decodeHeaderBlock_rawLines hcolon hlines htype hlength
  have hne : getvarLines value ≠ [] := List.cons_ne_nil _ _
  obtain ⟨pos, hpos, htake, hdrop⟩ := find_rawLines hne hlines rest
    (b := utf8Encode (getvarReply value) ++ rest) (by rw [getvarReply_eq])
  refine ⟨⟨.commandReply, readHeaders X (getvarLines value), none⟩, ?_, rfl, ?_⟩
  · simp only [frame, hpos, htake, hdrop, hblock]
    rfl
  · rw [hread]
    exact HeaderMap.get_ofList_of_mem (by simp; decide) (by simp)

end Reply

/-! ## The value -/

section Value

variable {value : Str} {s : Connection} {id : Nat} {timeoutMs : UInt64} {rest : Bytes}

/-- The reader hands the reply over, and the waiting call returns the decoded value. -/
theorem run_getvar (hX : X.DecodesPercent) (hnewline : '\n' ∉ value) (htrim : Trimmed value)
    (hreader : s.reader.pc = .parsing) (hparser : s.reader.parser.state = .waitingForHeaders)
    (hdata : s.reader.parser.buffer.data = utf8Encode (getvarReply value) ++ rest)
    (hslot : s.clients.pendingReply = some id)
    (hcall : (s.clients.calls id).state = .awaiting timeoutMs) :
    ∃ t result, run (Connection.step X) s [.reader, .reader, .call id .resolve] = some t ∧
      (t.clients.calls id).state = .returned result ∧
      getvar result = .ok ((X.percentDecodeUtf8 value).getD value) := by
  obtain ⟨message, hframe, htype, hvalue⟩ := frame_getvarReply hX hnewline htrim rest
  rw [← hparser, ← hdata] at hframe
  obtain ⟨parser, hparse, -, -⟩ := parseMessage_of_emit hframe
  -- the reader reads the reply, then hands it to the sender in the slot
  have hread : s.step X .reader = some { s with reader :=
      ⟨.replying message, parser, s.reader.lastRecv, s.reader.status,
        s.reader.messages ++ [message]⟩ } := by
    simp only [Connection.step, Connection.readerStep, hreader, ReaderTask.parse, hparse,
      ReaderTask.handle, htype]
  have hstate : ((s.clients.deliver message).calls id).state = .awaiting timeoutMs := by
    simp only [Clients.deliver, hslot, Clients.setReply, Function.update_self, hcall]
  have hreply : ((s.clients.deliver message).calls id).reply = .sent message := by
    simp only [Clients.deliver, hslot, Clients.setReply, Function.update_self]
  have hresolve : (s.clients.deliver message).step s.reader.status id .resolve =
      some ((s.clients.deliver message).finish id (.ok message.intoResponse)) := by
    simp only [Clients.step, hstate, hreply]
  refine ⟨{ s with
      reader := ⟨.parsing, parser, s.reader.lastRecv, s.reader.status,
        s.reader.messages ++ [message]⟩
      clients := (s.clients.deliver message).finish id (.ok message.intoResponse) },
    .ok message.intoResponse, ?_, ?_, ?_⟩
  · apply run_cons_eq_some.mpr ⟨_, hread, ?_⟩
    apply run_cons_eq_some.mpr ⟨_, rfl, ?_⟩
    apply run_cons_eq_some.mpr ⟨_, ?_, rfl⟩
    exact congrArg (Option.map _) hresolve
  · simp only [Clients.finish, Clients.setState, Function.update_self]
  · change Except.ok ((message.headers.get HEADER_REPLY_TEXT).getD []) = _
    rw [hvalue, Option.getD_some]

/-- `getvar` returns the value exactly if it is one that the header parser keeps. -/
theorem getvar_eq_iff (hX : X.DecodesPercent) (hnewline : '\n' ∉ value) (htrim : Trimmed value)
    (hreader : s.reader.pc = .parsing) (hparser : s.reader.parser.state = .waitingForHeaders)
    (hdata : s.reader.parser.buffer.data = utf8Encode (getvarReply value) ++ rest)
    (hslot : s.clients.pendingReply = some id)
    (hcall : (s.clients.calls id).state = .awaiting timeoutMs) :
    ∃ t result, run (Connection.step X) s [.reader, .reader, .call id .resolve] = some t ∧
      (t.clients.calls id).state = .returned result ∧
      (getvar result = .ok value ↔ KeptRaw value) := by
  obtain ⟨t, result, hrun, hstate, hvalue⟩ :=
    run_getvar hX hnewline htrim hreader hparser hdata hslot hcall
  refine ⟨t, result, hrun, hstate, ?_⟩
  rw [hvalue, Except.ok.injEq]
  exact decoded_eq_iff hX value

/-- A connection whose call 0 waits for its reply, which has arrived. -/
def answered (value : Str) : Connection :=
  { Connection.init 1 ⟨EslBuffer.new.extendFromSlice (utf8Encode (getvarReply value)),
      .waitingForHeaders⟩ with
    clients := { Clients.init with
      calls := fun _ ↦ ⟨.awaiting 5000, utf8Encode "getvar discount\n\n".toList, .pending⟩
      writerLock := some 0
      pendingReply := some 0 } }

theorem getvar_eq_iff_discount :
    ∃ t result, run (Connection.step .percentOnly) (answered "50% off".toList)
        [.reader, .reader, .call 0 .resolve] = some t ∧
      (t.clients.calls 0).state = .returned result ∧ getvar result = .ok "50% off".toList := by
  have hdata : (answered "50% off".toList).reader.parser.buffer.data =
      utf8Encode (getvarReply "50% off".toList) ++ [] := by
    rw [List.append_nil]
    rfl
  obtain ⟨t, result, hrun, hstate, hiff⟩ := getvar_eq_iff Crates.percentOnly_decodesPercent
    (by decide) (by decide) rfl rfl hdata rfl rfl
  exact ⟨t, result, hrun, hstate, hiff.mpr (by decide +kernel)⟩

/-- The value `%41` comes back as `A`. -/
theorem not_getvar_escape :
    ¬ ∀ (X : Crates), X.DecodesPercent → ∀ (value : Str), '\n' ∉ value → Trimmed value →
      ∀ (s : Connection) (id : Nat) (timeoutMs : UInt64), s.reader.pc = .parsing →
        s.reader.parser.state = .waitingForHeaders →
        s.reader.parser.buffer.data = utf8Encode (getvarReply value) →
        s.clients.pendingReply = some id → (s.clients.calls id).state = .awaiting timeoutMs →
        ∀ t result, run (Connection.step X) s [.reader, .reader, .call id .resolve] = some t →
          (t.clients.calls id).state = .returned result → getvar result = .ok value := by
  intro h
  have hdata : (answered "%41".toList).reader.parser.buffer.data =
      utf8Encode (getvarReply "%41".toList) ++ [] := by
    rw [List.append_nil]
    rfl
  obtain ⟨t, result, hrun, hstate, hvalue⟩ := run_getvar Crates.percentOnly_decodesPercent
    (by decide) (by decide) rfl rfl hdata rfl rfl
  have hsame := h _ Crates.percentOnly_decodesPercent _ (by decide) (by decide) _ _ _ rfl rfl
    (hdata.trans (List.append_nil _)) rfl rfl t result hrun hstate
  rw [hvalue, Except.ok.injEq, decoded_eq_iff Crates.percentOnly_decodesPercent] at hsame
  exact absurd hsame (by decide +kernel)

end Value

end FreeswitchEsl
