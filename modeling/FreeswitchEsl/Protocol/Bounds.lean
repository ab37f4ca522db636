import FreeswitchEsl.Connection.System
import FreeswitchEsl.Protocol.Segmentation
import FreeswitchEsl.Protocol.Tiling

/-!
# The size of the buffer

The reading loops drain the parser before they add a chunk.  Then the buffer has
been compacted, a body that is awaited fits, and only a header block without an end
can make the buffer overflow.
-/

namespace FreeswitchEsl

open Text Transition

variable (X : Crates)

/-! ## The invariant -/

/-- No message can be made of the bytes in this state. -/
def ParseState.Starves : ParseState → Bytes → Prop
  | .waitingForHeaders, bytes => Pattern.find HEADER_TERMINATOR bytes = none
  | .waitingForBody _ _ length, bytes => bytes.length < length

/-- Every announced body is one that the parser accepts to wait for. -/
def ParseState.Fits : ParseState → Prop
  | .waitingForHeaders => True
  | .waitingForBody _ _ length => 0 < length ∧ length ≤ MAX_MESSAGE_SIZE

/-- Nothing consumed is kept, and what is kept is within the limits. -/
structure Bounded (s : Feed) : Prop where
  position : s.parser.buffer.position = 0
  length_le : s.parser.buffer.buffer.length ≤ MAX_BUFFER_SIZE
  fits : s.parser.state.Fits
  starved : s.drained = true → s.parser.state.Starves s.parser.buffer.data

/-- What holds when a chunk is added to a parser that has asked for more. -/
structure AddsWithinLimits (p : EslParser) (chunk : Bytes) : Prop where
  position : p.buffer.position = 0
  body : ∀ messageType headers length, p.state = .waitingForBody messageType headers length →
    0 < length ∧ length ≤ MAX_MESSAGE_SIZE ∧ p.buffer.data.length < length ∧
      (p.addData chunk).1 = .ok ()
  overflow : ∀ e, (p.addData chunk).1 = .error e →
    p.state = .waitingForHeaders ∧ MAX_BUFFER_SIZE < (p.buffer.data ++ chunk).length ∧
      Pattern.find HEADER_TERMINATOR p.buffer.data = none ∧
      e = .bufferOverflow (p.buffer.data ++ chunk).length MAX_BUFFER_SIZE
  length_le : (p.addData chunk).2.buffer.buffer.length ≤ MAX_BUFFER_SIZE + SOCKET_BUF_SIZE

/-! ## Operations -/

theorem EslBuffer.length_buffer {b : EslBuffer} (h : b.position = 0) :
    b.buffer.length = b.data.length := by
  rw [EslBuffer.data, h, List.drop_zero]

theorem EslBuffer.checkSizeLimits_eq_ok {b : EslBuffer} :
    b.checkSizeLimits = .ok () ↔ b.buffer.length ≤ MAX_BUFFER_SIZE := by
  unfold checkSizeLimits
  split
  · rename_i hlt
    exact ⟨nofun, fun hle ↦ absurd hlt (not_lt.mpr hle)⟩
  · rename_i hle
    exact ⟨fun _ ↦ not_lt.mp hle, fun _ ↦ rfl⟩

theorem EslBuffer.of_checkSizeLimits_error {b : EslBuffer} {e : EslError}
    (h : b.checkSizeLimits = .error e) :
    MAX_BUFFER_SIZE < b.buffer.length ∧ e = .bufferOverflow b.buffer.length MAX_BUFFER_SIZE := by
  unfold checkSizeLimits at h
  split at h
  · rename_i hlt
    exact ⟨hlt, (Except.error.inj h).symm⟩
  · cases h

section Step

variable {X} {p p' : EslParser} {r : EslResult (Option EslMessage)}

theorem position_parseBody {messageType : MessageType} {headers : HeaderMap} {length : Nat}
    (hp : p.buffer.position = 0) :
    (p.parseBody messageType headers length).2.buffer.position = 0 := by
  unfold EslParser.parseBody
  split
  · exact hp
  · dsimp only
    split
    · exact EslBuffer.position_compact _
    · exact EslBuffer.position_compact _

/-- Whatever `parse_message` consumes it compacts away. -/
theorem position_parseMessage (hp : p.buffer.position = 0) (h : p.parseMessage X = (r, p')) :
    p'.buffer.position = 0 := by
  rw [← show (p.parseMessage X).2 = p' from congrArg Prod.snd h]
  unfold EslParser.parseMessage
  split
  · split
    · exact hp
    · dsimp only
      split
      · exact EslBuffer.position_compact _
      · split
        · exact position_parseBody (EslBuffer.position_compact _)
        · exact EslBuffer.position_compact _
  · exact position_parseBody hp

theorem length_parseBody_le {messageType : MessageType} {headers : HeaderMap} {length : Nat} :
    (p.parseBody messageType headers length).2.buffer.data.length ≤ p.buffer.data.length := by
  unfold EslParser.parseBody
  split
  · exact le_refl _
  · rename_i bodyData buffer hextract
    obtain ⟨-, -, hdata⟩ := EslBuffer.data_of_extractBytes hextract
    have hle : buffer.compact.data.length ≤ p.buffer.data.length := by
      rw [EslBuffer.data_compact, hdata, List.length_drop]
      omega
    dsimp only
    split
    · exact hle
    · exact hle

/-- `parse_message` never lengthens the data, whatever it returns. -/
theorem length_parseMessage_le (h : p.parseMessage X = (r, p')) :
    p'.buffer.data.length ≤ p.buffer.data.length := by
  rw [← show (p.parseMessage X).2 = p' from congrArg Prod.snd h]
  unfold EslParser.parseMessage
  split
  · split
    · exact le_refl _
    · rename_i headersData buffer hextract
      obtain ⟨pos, -, -, hdata⟩ := EslBuffer.data_of_extractUntilPattern hextract
      have hle : buffer.compact.data.length ≤ p.buffer.data.length := by
        rw [EslBuffer.data_compact, hdata, List.length_drop]
        omega
      dsimp only
      split
      · exact hle
      · split
        · exact le_trans length_parseBody_le hle
        · exact hle
  · exact length_parseBody_le

end Step

section Frame

variable {X} {s s' : ParseState} {b r : Bytes} {m : EslMessage}

theorem starved_of_frameBody {messageType : MessageType} {headers : HeaderMap} {length : Nat}
    (h : frameBody messageType headers length b = .more s' r) :
    s' = .waitingForBody messageType headers length ∧ r = b ∧ b.length < length := by
  unfold frameBody at h
  split at h
  · cases hbody : decodeBody messageType headers (b.take length) <;> simp [hbody] at h
  · rename_i hlength
    cases h
    exact ⟨rfl, rfl, by omega⟩

theorem waiting_of_frame_emit (h : frame X s b = .emit m s' r) : s' = .waitingForHeaders := by
  cases s with
  | waitingForBody messageType headers length => exact (frameBody_eq_emit h).1
  | waitingForHeaders =>
      unfold frame at h
      dsimp only at h
      split at h
      · cases h
      · split at h
        · cases h
        · split at h
          · exact (frameBody_eq_emit h).1
          · cases h
            rfl

/-- A decoding step that asks for more has used up what it could. -/
theorem starved_of_frame (hfits : s.Fits) (h : frame X s b = .more s' r) :
    s'.Fits ∧ s'.Starves r := by
  cases s with
  | waitingForBody messageType headers length =>
      obtain ⟨rfl, rfl, hlength⟩ := starved_of_frameBody h
      exact ⟨hfits, hlength⟩
  | waitingForHeaders =>
      unfold frame at h
      dsimp only at h
      split at h
      · rename_i hnone
        cases h
        exact ⟨trivial, hnone⟩
      · rename_i pos hpos
        obtain ⟨-, hfirst⟩ := cut_of_find hpos
        split at h
        · cases h
        · rename_i messageType headers length hblock
          obtain ⟨-, hle⟩ := isBlock_of_decodeHeaderBlock hfirst hblock
          split at h
          · rename_i hlength
            obtain ⟨rfl, rfl, hshort⟩ := starved_of_frameBody h
            exact ⟨⟨hlength, hle⟩, hshort⟩
          · cases h

end Frame

/-! ## Runs -/

section Runs

variable {X} {s t : Feed} {op : FeedOp}

theorem Bounded.parse {p : EslParser} {r : EslResult (Option EslMessage)} (h : Bounded s)
    (hparse : s.parser.parseMessage X = (r, p)) :
    p.buffer.position = 0 ∧ p.buffer.buffer.length ≤ MAX_BUFFER_SIZE := by
  have hposition := position_parseMessage h.position hparse
  have hle := length_parseMessage_le hparse
  have hlength := h.length_le
  rw [EslBuffer.length_buffer h.position] at hlength
  rw [EslBuffer.length_buffer hposition]
  exact ⟨hposition, le_trans hle hlength⟩

theorem bounded_step (h : Bounded s) (hstep : s.step X op = some t) : Bounded t := by
  cases Feed.effect_of_step hstep with
  | @added bytes parser hadd =>
      have hlimits := congrArg Prod.fst hadd
      obtain rfl := EslParser.of_addData hadd
      refine ⟨h.position, ?_, h.fits, nofun⟩
      exact EslBuffer.checkSizeLimits_eq_ok.mp hlimits
  | @asked parser hparse =>
      obtain ⟨hposition, hlength⟩ := h.parse hparse
      obtain ⟨hfits, hstarved⟩ := starved_of_frame h.fits (frame_of_none hparse)
      exact ⟨hposition, hlength, hfits, fun _ ↦ hstarved⟩
  | @delivered message parser hparse =>
      obtain ⟨hposition, hlength⟩ := h.parse hparse
      refine ⟨hposition, hlength, ?_, nofun⟩
      rw [waiting_of_frame_emit (frame_of_some hparse)]
      trivial

theorem bounded_init : Bounded Feed.init := ⟨rfl, Nat.zero_le _, trivial, nofun⟩

theorem Bounded.length_addData_le (h : Bounded s) {chunk : Bytes}
    (hchunk : chunk.length ≤ SOCKET_BUF_SIZE) :
    (s.parser.addData chunk).2.buffer.buffer.length ≤ MAX_BUFFER_SIZE + SOCKET_BUF_SIZE := by
  have hlength := h.length_le
  change (s.parser.buffer.buffer ++ chunk).length ≤ _
  rw [List.length_append]
  omega

theorem Bounded.body (h : Bounded s) (hdrained : s.drained = true) {chunk : Bytes}
    (hchunk : chunk.length ≤ SOCKET_BUF_SIZE) {messageType : MessageType} {headers : HeaderMap}
    {length : Nat} (hstate : s.parser.state = .waitingForBody messageType headers length) :
    0 < length ∧ length ≤ MAX_MESSAGE_SIZE ∧ s.parser.buffer.data.length < length ∧
      (s.parser.addData chunk).1 = .ok () := by
  have hfits := h.fits
  have hstarved := h.starved hdrained
  rw [hstate] at hfits hstarved
  obtain ⟨hpos, hmax⟩ := hfits
  have hshort : s.parser.buffer.data.length < length := hstarved
  refine ⟨hpos, hmax, hshort, EslBuffer.checkSizeLimits_eq_ok.mpr ?_⟩
  -- a body that is awaited and a chunk fit the buffer together
  have hlimits : MAX_MESSAGE_SIZE + SOCKET_BUF_SIZE ≤ MAX_BUFFER_SIZE := by decide
  change (s.parser.buffer.buffer ++ chunk).length ≤ MAX_BUFFER_SIZE
  rw [List.length_append, EslBuffer.length_buffer h.position]
  omega

theorem Bounded.overflow (h : Bounded s) (hdrained : s.drained = true) {chunk : Bytes}
    (hchunk : chunk.length ≤ SOCKET_BUF_SIZE) {e : EslError}
    (he : (s.parser.addData chunk).1 = .error e) :
    s.parser.state = .waitingForHeaders ∧
      MAX_BUFFER_SIZE < (s.parser.buffer.data ++ chunk).length ∧
      Pattern.find HEADER_TERMINATOR s.parser.buffer.data = none ∧
      e = .bufferOverflow (s.parser.buffer.data ++ chunk).length MAX_BUFFER_SIZE := by
  have hraw : (s.parser.buffer.extendFromSlice chunk).buffer = s.parser.buffer.data ++ chunk := by
    rw [EslBuffer.data, h.position, List.drop_zero]
    rfl
  obtain ⟨hover, rfl⟩ := EslBuffer.of_checkSizeLimits_error he
  rw [hraw] at hover ⊢
  have hstarved := h.starved hdrained
  cases hstate : s.parser.state with
  | waitingForHeaders =>
      rw [hstate] at hstarved
      exact ⟨rfl, hover, hstarved, rfl⟩
  | waitingForBody messageType headers length =>
      obtain ⟨-, -, -, hok⟩ := h.body hdrained hchunk hstate
      rw [hok] at he
      cases he

theorem Bounded.addsWithinLimits (h : Bounded s) (hdrained : s.drained = true) {chunk : Bytes}
    (hchunk : chunk.length ≤ SOCKET_BUF_SIZE) : AddsWithinLimits s.parser chunk :=
  ⟨h.position, fun _ _ _ hstate ↦ h.body hdrained hchunk hstate,
    fun _ he ↦ h.overflow hdrained hchunk he, h.length_addData_le hchunk⟩

theorem bounded_of_run {ops : List FeedOp} (hrun : run (Feed.step X) Feed.init ops = some s) :
    Bounded s :=
  invariant_of_run (fun _ _ _ h hstep ↦ bounded_step h hstep) bounded_init hrun

end Runs

/-- In every state that calls without an error reach, the buffer is within the
limits, and also behind the next call.  If the last call has asked for more, only a
header block without an end makes the next chunk overflow the buffer. -/
theorem addData_within_limits (X : Crates) {ops : List FeedOp} {s : Feed}
    (hrun : run (Feed.step X) Feed.init ops = some s) :
    s.parser.buffer.buffer.length ≤ MAX_BUFFER_SIZE + SOCKET_BUF_SIZE ∧
      (s.parser.parseMessage X).2.buffer.buffer.length ≤ MAX_BUFFER_SIZE + SOCKET_BUF_SIZE ∧
      (s.drained = true → ∀ chunk : Bytes, chunk.length ≤ SOCKET_BUF_SIZE →
        AddsWithinLimits s.parser chunk) := by
  have h := bounded_of_run hrun
  refine ⟨le_trans h.length_le (Nat.le_add_right _ _), ?_, ?_⟩
  · obtain ⟨-, hlength⟩ := h.parse (X := X) (Prod.eta _).symm
    exact le_trans hlength (Nat.le_add_right _ _)
  · intro hdrained chunk hchunk
    exact h.addsWithinLimits hdrained hchunk

theorem addData_within_limits_bodyPending :
    ∃ s, run (Feed.step .percentOnly) Feed.init
        [.addData (utf8Encode "Content-Type: api/response\nContent-Length: 4\n\nup".toList),
          .parseMessage] = some s ∧
      AddsWithinLimits s.parser (utf8Encode "!".toList) := by
  have hrun : (run (Feed.step .percentOnly) Feed.init
      [.addData (utf8Encode "Content-Type: api/response\nContent-Length: 4\n\nup".toList),
        .parseMessage]).any (fun s ↦ s.drained = true) = true := by
    decide +kernel
  obtain ⟨s, hs, hdrained⟩ := exists_run_of_any hrun
  obtain ⟨-, -, hadds⟩ := addData_within_limits .percentOnly hs
  exact ⟨s, hs, hadds hdrained _ (by decide)⟩

end FreeswitchEsl
