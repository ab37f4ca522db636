import FreeswitchEsl.Lib.Transition
import FreeswitchEsl.Percent
import FreeswitchEsl.Protocol.Framing

/-!
# Messages tile the stream

Any sequence of calls that feed the parser and ask it for messages, as long as none
of them fails.  The bytes fed so far are the frames of the messages delivered, then
a header block whose body has not arrived, then what is in the buffer.
-/

namespace FreeswitchEsl

open Text Transition

variable (X : Crates)

/-! ## Feeding the parser -/

inductive FeedOp where
  | addData (bytes : Bytes)
  | parseMessage

/-- A parser with its past: the bytes fed, the messages delivered, and whether the
last call was a `parse_message` that asked for more. -/
structure Feed where
  parser : EslParser
  fed : Bytes
  delivered : List EslMessage
  drained : Bool

namespace Feed

def init : Feed := ⟨EslParser.new, [], [], false⟩

/-- One call, which has not returned `Err`. -/
def step (s : Feed) : FeedOp → Option Feed
  | .addData bytes =>
      match s.parser.addData bytes with
      | (.ok _, parser) => some ⟨parser, s.fed ++ bytes, s.delivered, false⟩
      | (.error _, _) => none
  | .parseMessage =>
      match s.parser.parseMessage X with
      | (.ok none, parser) => some ⟨parser, s.fed, s.delivered, true⟩
      | (.ok (some message), parser) => some ⟨parser, s.fed, s.delivered ++ [message], false⟩
      | (.error _, _) => none

variable {X}

/-- The rules that `step` follows. -/
inductive Effect (X : Crates) (s : Feed) : FeedOp → Feed → Prop
  | added {bytes parser} : s.parser.addData bytes = (.ok (), parser) →
      Effect X s (.addData bytes) ⟨parser, s.fed ++ bytes, s.delivered, false⟩
  | asked {parser} : s.parser.parseMessage X = (.ok none, parser) →
      Effect X s .parseMessage ⟨parser, s.fed, s.delivered, true⟩
  | delivered {message parser} : s.parser.parseMessage X = (.ok (some message), parser) →
      Effect X s .parseMessage ⟨parser, s.fed, s.delivered ++ [message], false⟩

theorem effect_of_step {s t : Feed} {op : FeedOp} (h : s.step X op = some t) :
    Effect X s op t := by
  cases op with
  | addData bytes =>
      simp only [step] at h
      split at h
      · rename_i parser hadd
        obtain rfl := Option.some.inj h
        exact .added hadd
      · cases h
  | parseMessage =>
      simp only [step] at h
      split at h
      · rename_i parser hparse
        obtain rfl := Option.some.inj h
        exact .asked hparse
      · rename_i message parser hparse
        obtain rfl := Option.some.inj h
        exact .delivered hparse
      · cases h

end Feed

theorem EslParser.of_addData {p p' : EslParser} {bytes : Bytes} {r : EslResult Unit}
    (h : p.addData bytes = (r, p')) :
    p' = { p with buffer := p.buffer.extendFromSlice bytes } :=
  (congrArg Prod.snd h).symm

/-! ## Frames -/

/-- The number of body bytes that the headers announce. -/
def Announces (headers : HeaderMap) (length : Nat) : Prop :=
  match headers.get HEADER_CONTENT_LENGTH with
  | none => length = 0
  | some text => parseUsize (trim text) = some length

/-- The bytes up to the first terminator, and what they say. -/
structure IsBlock (block : Bytes) (messageType : MessageType) (headers : HeaderMap)
    (length : Nat) : Prop where
  first : Pattern.find HEADER_TERMINATOR (block ++ HEADER_TERMINATOR) = some block.length
  headers_eq : ∃ text, utf8Decode block = some text ∧ parseHeaders X text = .ok headers
  messageType_eq : ∃ contentType, headers.get HEADER_CONTENT_TYPE = some contentType ∧
    messageType = MessageType.fromContentType contentType
  length_eq : Announces headers length

/-- The bytes are the frame of the message: its block, the terminator, its body. -/
def IsFrame (message : EslMessage) (bytes : Bytes) : Prop :=
  ∃ block body, bytes = block ++ HEADER_TERMINATOR ++ body ∧
    IsBlock X block message.messageType message.headers body.length ∧
      (body = [] ∧ message.body = none ∨
        body ≠ [] ∧ ∃ text, utf8Decode body = some text ∧ message.body = some text)

/-- The bytes that the state remembers: a block with its terminator while the body
is awaited. -/
def IsPending : ParseState → Bytes → Prop
  | .waitingForHeaders, bytes => bytes = []
  | .waitingForBody messageType headers length, bytes =>
      ∃ block, bytes = block ++ HEADER_TERMINATOR ∧ IsBlock X block messageType headers length ∧
        0 < length

/-- The bytes fed are one frame for each message delivered, in order, then what the
state remembers, then the contents of the buffer. -/
def Tiled (s : Feed) : Prop :=
  ∃ frames pending, List.Forall₂ (IsFrame X) s.delivered frames ∧
    IsPending X s.parser.state pending ∧
      s.fed = frames.flatten ++ (pending ++ s.parser.buffer.data)

variable {X}

theorem announces_of_bodyLength {headers : HeaderMap} {length : Nat}
    (h : bodyLength headers = .ok length) :
    Announces headers length ∧ length ≤ MAX_MESSAGE_SIZE := by
  unfold bodyLength at h
  unfold Announces
  cases hget : headers.get HEADER_CONTENT_LENGTH with
  | none =>
      rw [hget] at h
      obtain rfl := Except.ok.inj h
      exact ⟨rfl, Nat.zero_le _⟩
  | some text =>
      rw [hget] at h
      dsimp only at h ⊢
      split at h
      · cases h
      · rename_i n hparse
        split at h
        · cases h
        · rename_i hle
          obtain rfl := Except.ok.inj h
          exact ⟨hparse, by omega⟩

theorem isBlock_of_decodeHeaderBlock {block : Bytes} {messageType : MessageType}
    {headers : HeaderMap} {length : Nat}
    (hfirst : Pattern.find HEADER_TERMINATOR (block ++ HEADER_TERMINATOR) = some block.length)
    (h : decodeHeaderBlock X block = .ok (messageType, headers, length)) :
    IsBlock X block messageType headers length ∧ length ≤ MAX_MESSAGE_SIZE := by
  unfold decodeHeaderBlock at h
  split at h
  · cases h
  · rename_i text htext
    obtain ⟨headers', hheaders, h⟩ := bind_eq_ok.mp h
    split at h
    · cases h
    · rename_i contentType htype
      obtain ⟨length', hlength, h⟩ := bind_eq_ok.mp h
      obtain ⟨rfl, hrest⟩ := Prod.mk.inj (Except.ok.inj h)
      obtain ⟨rfl, rfl⟩ := Prod.mk.inj hrest
      obtain ⟨hannounces, hle⟩ := announces_of_bodyLength hlength
      exact ⟨⟨hfirst, ⟨text, htext, hheaders⟩, ⟨contentType, htype, rfl⟩, hannounces⟩, hle⟩

/-- The block in front of the first terminator of a buffer. -/
theorem cut_of_find {b : Bytes} {pos : Nat} (h : Pattern.find HEADER_TERMINATOR b = some pos) :
    b = b.take pos ++ HEADER_TERMINATOR ++ b.drop (pos + 2) ∧
      Pattern.find HEADER_TERMINATOR (b.take pos ++ HEADER_TERMINATOR) =
        some (b.take pos).length := by
  obtain ⟨hsplit, hfirst⟩ := Pattern.split_of_find h
  have hle : pos + 2 ≤ b.length := Pattern.add_length_le_of_find h
  rw [List.length_take, min_eq_left (by omega), List.append_assoc]
  exact ⟨hsplit, hfirst⟩

/-! ## One step of the decoder -/

section Step

variable {s s' : ParseState} {b r pending : Bytes} {m : EslMessage}

theorem tile_of_frameBody_more {messageType : MessageType} {headers : HeaderMap} {length : Nat}
    (hpending : IsPending X (.waitingForBody messageType headers length) pending)
    (h : frameBody messageType headers length b = .more s' r) :
    IsPending X s' pending ∧ b = r := by
  unfold frameBody at h
  split at h
  · cases hbody : decodeBody messageType headers (b.take length) <;> simp [hbody] at h
  · cases h
    exact ⟨hpending, rfl⟩

theorem tile_of_frameBody_emit {messageType : MessageType} {headers : HeaderMap} {length : Nat}
    (hpending : IsPending X (.waitingForBody messageType headers length) pending)
    (h : frameBody messageType headers length b = .emit m s' r) :
    s' = .waitingForHeaders ∧ ∃ w, IsFrame X m w ∧ pending ++ b = w ++ r := by
  obtain ⟨block, rfl, hblock, hpos⟩ := hpending
  obtain ⟨rfl, hle, rfl⟩ := frameBody_eq_emit h
  rw [frameBody, if_pos hle] at h
  unfold decodeBody at h
  cases htext : utf8Decode (b.take length) with
  | none => simp [htext] at h
  | some text =>
      rw [htext] at h
      dsimp only at h
      cases h
      have hlength : (b.take length).length = length := by
        rw [List.length_take, min_eq_left hle]
      refine ⟨rfl, _, ⟨block, b.take length, rfl, ?_, Or.inr ⟨?_, text, htext, rfl⟩⟩, ?_⟩
      · rw [hlength]
        exact hblock
      · apply List.ne_nil_of_length_pos
        omega
      · rw [List.append_assoc (block ++ HEADER_TERMINATOR), List.take_append_drop]

/-- A decoding step that asks for more moves at most a header block from the buffer
to what the state remembers. -/
theorem tile_of_more (hpending : IsPending X s pending) (h : frame X s b = .more s' r) :
    ∃ pending', IsPending X s' pending' ∧ pending ++ b = pending' ++ r := by
  cases s with
  | waitingForBody messageType headers length =>
      obtain ⟨hpending', rfl⟩ := tile_of_frameBody_more hpending h
      exact ⟨pending, hpending', rfl⟩
  | waitingForHeaders =>
      obtain rfl : pending = [] := hpending
      unfold frame at h
      dsimp only at h
      split at h
      · cases h
        exact ⟨[], rfl, rfl⟩
      · rename_i pos hpos
        obtain ⟨hsplit, hfirst⟩ := cut_of_find hpos
        split at h
        · cases h
        · rename_i messageType headers length hblock
          split at h
          · rename_i hlength
            have hwait : IsPending X (.waitingForBody messageType headers length)
                (b.take pos ++ HEADER_TERMINATOR) :=
              ⟨_, rfl, (isBlock_of_decodeHeaderBlock hfirst hblock).1, hlength⟩
            obtain ⟨hpending', hr⟩ := tile_of_frameBody_more hwait h
            refine ⟨_, hpending', ?_⟩
            rw [← hr]
            exact hsplit
          · cases h

/-- A decoding step that emits a message has found its frame. -/
theorem tile_of_emit (hpending : IsPending X s pending) (h : frame X s b = .emit m s' r) :
    s' = .waitingForHeaders ∧ ∃ w, IsFrame X m w ∧ pending ++ b = w ++ r := by
  cases s with
  | waitingForBody messageType headers length => exact tile_of_frameBody_emit hpending h
  | waitingForHeaders =>
      obtain rfl : pending = [] := hpending
      unfold frame at h
      dsimp only at h
      split at h
      · cases h
      · rename_i pos hpos
        obtain ⟨hsplit, hfirst⟩ := cut_of_find hpos
        split at h
        · cases h
        · rename_i messageType headers length hblock
          obtain ⟨hblock', -⟩ := isBlock_of_decodeHeaderBlock hfirst hblock
          split at h
          · rename_i hlength
            obtain ⟨hs, w, hframe, hw⟩ := tile_of_frameBody_emit ⟨_, rfl, hblock', hlength⟩ h
            refine ⟨hs, w, hframe, ?_⟩
            rw [← hw]
            exact hsplit
          · rename_i hlength
            cases h
            obtain rfl : length = 0 := by omega
            refine ⟨rfl, b.take pos ++ HEADER_TERMINATOR,
              ⟨b.take pos, [], by simp, hblock', Or.inl ⟨rfl, rfl⟩⟩, ?_⟩
            exact hsplit

end Step

/-! ## Runs -/

theorem tiled_step {s t : Feed} {op : FeedOp} (h : Tiled X s) (hstep : s.step X op = some t) :
    Tiled X t := by
  obtain ⟨frames, pending, hframes, hpending, hfed⟩ := h
  cases Feed.effect_of_step hstep with
  | @added bytes parser hadd =>
      obtain rfl := EslParser.of_addData hadd
      refine ⟨frames, pending, hframes, hpending, ?_⟩
      simp only [hfed, EslBuffer.data_extendFromSlice, List.append_assoc]
  | asked hparse =>
      obtain ⟨pending', hpending', htile⟩ := tile_of_more hpending (frame_of_none hparse)
      refine ⟨frames, pending', hframes, hpending', ?_⟩
      rw [hfed, htile]
  | delivered hparse =>
      obtain ⟨hstate, w, hframe, htile⟩ := tile_of_emit hpending (frame_of_some hparse)
      refine ⟨frames ++ [w], [], List.rel_append hframes (.cons hframe .nil), ?_, ?_⟩
      · rw [hstate]
        rfl
      · rw [hfed, htile]
        simp

theorem tiled_init (X : Crates) : Tiled X Feed.init := ⟨[], [], .nil, rfl, rfl⟩

/-- In every state that calls without an error reach, the messages delivered tile
the bytes fed, up to what the parser still holds. -/
theorem tiled_of_run (X : Crates) {ops : List FeedOp} {s : Feed}
    (hrun : run (Feed.step X) Feed.init ops = some s) : Tiled X s :=
  invariant_of_run (fun _ _ _ h hstep ↦ tiled_step h hstep) (tiled_init X) hrun

/-- A reply with its body and the first half of the next one, cut inside a block. -/
def replyAndAHalf : List FeedOp :=
  [.addData (utf8Encode "Content-Type: api/response\nContent-Length: 2\n\nokContent-".toList),
   .parseMessage, .parseMessage,
   .addData (utf8Encode "Type: api/response\nContent-Length: 4\n\nup".toList), .parseMessage]

theorem tiled_of_run_bodyPending :
    ∃ s, run (Feed.step .percentOnly) Feed.init replyAndAHalf = some s ∧
      s.delivered.map EslMessage.body = [some "ok".toList] ∧
        s.parser.buffer.data = utf8Encode "up".toList ∧ Tiled .percentOnly s := by
  have hrun : (run (Feed.step .percentOnly) Feed.init replyAndAHalf).any
      (fun s ↦ s.delivered.map EslMessage.body = [some "ok".toList] ∧
        s.parser.buffer.data = utf8Encode "up".toList) = true := by
    decide +kernel
  obtain ⟨s, hs, hdelivered, hdata⟩ := exists_run_of_any hrun
  exact ⟨s, hs, hdelivered, hdata, tiled_of_run .percentOnly hs⟩

end FreeswitchEsl
