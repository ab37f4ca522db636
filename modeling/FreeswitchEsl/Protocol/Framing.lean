import FreeswitchEsl.Lib.Incremental
import FreeswitchEsl.Protocol.Parser

/-!
# Framing as a resumable decoder

What the parser is for, without buffer positions: a function on the parse state
and the bytes not consumed yet.  It obeys the laws of a resumable decoder, and
`parseMessage` computes it.
-/

namespace FreeswitchEsl

open Incremental

variable (X : Crates)

/-- Frame a body of `length` bytes. -/
def frameBody (messageType : MessageType) (headers : HeaderMap) (length : Nat) (b : Bytes) :
    Step ParseState UInt8 EslMessage EslError :=
  if length ≤ b.length then
    match decodeBody messageType headers (b.take length) with
    | .error e => .fail e
    | .ok message => .emit message .waitingForHeaders (b.drop length)
  else .more (.waitingForBody messageType headers length) b

/-- Frame a message: a header block up to a blank line, then its body. -/
def frame : ParseState → Bytes → Step ParseState UInt8 EslMessage EslError
  | .waitingForHeaders, b =>
      match Pattern.find HEADER_TERMINATOR b with
      | none => .more .waitingForHeaders b
      | some pos =>
          match decodeHeaderBlock X (b.take pos) with
          | .error e => .fail e
          | .ok (messageType, headers, length) =>
              if 0 < length then frameBody messageType headers length (b.drop (pos + 2))
              else .emit ⟨messageType, headers, none⟩ .waitingForHeaders (b.drop (pos + 2))
  | .waitingForBody messageType headers length, b => frameBody messageType headers length b

def ParseState.rank : ParseState → Nat
  | .waitingForHeaders => 0
  | .waitingForBody _ _ _ => 1

/-- Twice the bytes left, and one for an announced body. -/
def frameMeasure (s : ParseState) (b : Bytes) : Nat := 2 * b.length + s.rank

/-! ## The decoder laws -/

theorem frameBody_append (messageType : MessageType) (headers : HeaderMap) (length : Nat)
    (b x : Bytes) :
    frameBody messageType headers length (b ++ x) =
      (frameBody messageType headers length b).extend (frame X) x := by
  by_cases hlen : length ≤ b.length
  · have hlen' : length ≤ (b ++ x).length := by
      rw [List.length_append]
      omega
    simp only [frameBody, if_pos hlen, if_pos hlen', List.take_append_of_le_length hlen,
      List.drop_append_of_le_length hlen]
    cases decodeBody messageType headers (b.take length) <;> rfl
  · simp only [frameBody, if_neg hlen, Step.extend, frame]

theorem frame_append (s : ParseState) (b x : Bytes) :
    frame X s (b ++ x) = (frame X s b).extend (frame X) x := by
  cases s with
  | waitingForBody messageType headers length =>
      exact frameBody_append X messageType headers length b x
  | waitingForHeaders =>
      cases hpos : Pattern.find HEADER_TERMINATOR b with
      | none => simp only [frame, hpos, Step.extend]
      | some pos =>
          have hle : pos + 2 ≤ b.length := Pattern.add_length_le_of_find hpos
          have htake : (b ++ x).take pos = b.take pos :=
            List.take_append_of_le_length (by omega)
          have hdrop : (b ++ x).drop (pos + 2) = b.drop (pos + 2) ++ x :=
            List.drop_append_of_le_length hle
          simp only [frame, hpos, Pattern.find_append hpos x, htake, hdrop]
          cases decodeHeaderBlock X (b.take pos) with
          | error e => rfl
          | ok block =>
              dsimp only
              split
              · exact frameBody_append X _ _ _ _ x
              · rfl

theorem frameBody_eq_emit {messageType : MessageType} {headers : HeaderMap}
    {length : Nat} {b r : Bytes} {m : EslMessage} {s : ParseState}
    (h : frameBody messageType headers length b = .emit m s r) :
    s = .waitingForHeaders ∧ length ≤ b.length ∧ r = b.drop length := by
  rw [frameBody] at h
  split at h
  · rename_i hlen
    cases hbody : decodeBody messageType headers (b.take length) with
    | error e => simp [hbody] at h
    | ok message =>
        rw [hbody] at h
        cases h
        exact ⟨rfl, hlen, rfl⟩
  · cases h

theorem frameMeasure_lt {s s' : ParseState} {b r : Bytes} {m : EslMessage}
    (h : frame X s b = .emit m s' r) : frameMeasure s' r < frameMeasure s b := by
  cases s with
  | waitingForBody messageType headers length =>
      obtain ⟨rfl, -, rfl⟩ := frameBody_eq_emit h
      simp only [frameMeasure, ParseState.rank, List.length_drop]
      omega
  | waitingForHeaders =>
      cases hpos : Pattern.find HEADER_TERMINATOR b with
      | none => simp [frame, hpos] at h
      | some pos =>
          have hle : pos + 2 ≤ b.length := Pattern.add_length_le_of_find hpos
          simp only [frame, hpos] at h
          cases hblock : decodeHeaderBlock X (b.take pos) with
          | error e => simp [hblock] at h
          | ok block =>
              simp only [hblock] at h
              split at h
              · obtain ⟨rfl, -, rfl⟩ := frameBody_eq_emit h
                simp only [frameMeasure, ParseState.rank, List.length_drop]
                omega
              · cases h
                simp only [frameMeasure, ParseState.rank, List.length_drop]
                omega

def framing : Decoder ParseState UInt8 EslMessage EslError where
  step := frame X
  measure := frameMeasure
  step_append := frame_append X
  measure_lt := frameMeasure_lt X

/-! ## The parser computes the decoder -/

/-- The result of a `parse_message` call agrees with a decoding step. -/
def Computes : EslResult (Option EslMessage) × EslParser →
    Step ParseState UInt8 EslMessage EslError → Prop
  | (.ok none, p), .more s r => p.state = s ∧ p.buffer.data = r
  | (.ok (some m), p), .emit m' s r => m = m' ∧ p.state = s ∧ p.buffer.data = r
  | (.error e, _), .fail e' => e = e'
  | _, _ => False

theorem parseBody_computes (p : EslParser) (messageType : MessageType) (headers : HeaderMap)
    (length : Nat) (hstate : p.state = .waitingForBody messageType headers length) :
    Computes (p.parseBody messageType headers length)
      (frameBody messageType headers length p.buffer.data) := by
  unfold EslParser.parseBody frameBody
  cases hextract : p.buffer.extractBytes length with
  | none =>
      have hlen := EslBuffer.extractBytes_eq_none.mp hextract
      rw [if_neg (by omega)]
      exact ⟨hstate, rfl⟩
  | some taken =>
      obtain ⟨hlen, htaken, hdata⟩ := EslBuffer.data_of_extractBytes hextract
      rw [if_pos hlen]
      dsimp only
      rw [htaken]
      cases decodeBody messageType headers (p.buffer.data.take length) with
      | error e => exact rfl
      | ok m => exact ⟨rfl, rfl, by simp [hdata]⟩

theorem parseMessage_computes (p : EslParser) :
    Computes (p.parseMessage X) (frame X p.state p.buffer.data) := by
  unfold EslParser.parseMessage
  cases hstate : p.state with
  | waitingForBody messageType headers length =>
      exact parseBody_computes p messageType headers length hstate
  | waitingForHeaders =>
      dsimp only
      cases hextract : p.buffer.extractUntilPattern HEADER_TERMINATOR with
      | none =>
          have hnone := EslBuffer.extractUntilPattern_eq_none.mp hextract
          simp only [frame, hnone]
          exact ⟨hstate, rfl⟩
      | some taken =>
          obtain ⟨pos, hpos, htaken, hdata⟩ := EslBuffer.data_of_extractUntilPattern hextract
          have hrest : taken.2.compact.data = p.buffer.data.drop (pos + 2) := by
            rw [EslBuffer.data_compact, hdata]
            rfl
          simp only [frame, hpos, htaken]
          cases decodeHeaderBlock X (p.buffer.data.take pos) with
          | error e => exact rfl
          | ok block =>
              dsimp only
              split
              · rw [← hrest]
                exact parseBody_computes _ _ _ _ rfl
              · exact ⟨rfl, rfl, hrest⟩

section ParseMessage

variable {X} {p p' : EslParser} {m : EslMessage} {e : EslError}

theorem frame_of_none (h : p.parseMessage X = (.ok none, p')) :
    frame X p.state p.buffer.data = .more p'.state p'.buffer.data := by
  have hcomp := parseMessage_computes X p
  rw [h] at hcomp
  cases hframe : frame X p.state p.buffer.data with
  | more s r =>
      rw [hframe] at hcomp
      obtain ⟨rfl, rfl⟩ := hcomp
      rfl
  | emit m s r =>
      rw [hframe] at hcomp
      exact hcomp.elim
  | fail e =>
      rw [hframe] at hcomp
      exact hcomp.elim

theorem frame_of_some (h : p.parseMessage X = (.ok (some m), p')) :
    frame X p.state p.buffer.data = .emit m p'.state p'.buffer.data := by
  have hcomp := parseMessage_computes X p
  rw [h] at hcomp
  cases hframe : frame X p.state p.buffer.data with
  | more s r =>
      rw [hframe] at hcomp
      exact hcomp.elim
  | emit m' s r =>
      rw [hframe] at hcomp
      obtain ⟨rfl, rfl, rfl⟩ := hcomp
      rfl
  | fail e =>
      rw [hframe] at hcomp
      exact hcomp.elim

theorem frame_of_error (h : p.parseMessage X = (.error e, p')) :
    frame X p.state p.buffer.data = .fail e := by
  have hcomp := parseMessage_computes X p
  rw [h] at hcomp
  cases hframe : frame X p.state p.buffer.data with
  | more s r =>
      rw [hframe] at hcomp
      exact hcomp.elim
  | emit m s r =>
      rw [hframe] at hcomp
      exact hcomp.elim
  | fail e' =>
      rw [hframe] at hcomp
      obtain rfl : e = e' := hcomp
      rfl

theorem parseMessage_error_iff :
    (∃ e, (p.parseMessage X).1 = .error e) ↔ ∃ e, frame X p.state p.buffer.data = .fail e := by
  cases hparse : p.parseMessage X with
  | mk result p' =>
      cases result with
      | error e => exact iff_of_true ⟨e, rfl⟩ ⟨e, frame_of_error hparse⟩
      | ok message =>
          apply iff_of_false
          · rintro ⟨e, h⟩
            cases h
          · rintro ⟨e, h⟩
            cases message with
            | none =>
                rw [frame_of_none hparse] at h
                cases h
            | some message =>
                rw [frame_of_some hparse] at h
                cases h

theorem parseMessage_of_emit {s : ParseState} {r : Bytes}
    (h : frame X p.state p.buffer.data = .emit m s r) :
    ∃ p', p.parseMessage X = (.ok (some m), p') ∧ p'.state = s ∧ p'.buffer.data = r := by
  cases hparse : p.parseMessage X with
  | mk result p' =>
      cases result with
      | error e =>
          rw [frame_of_error hparse] at h
          cases h
      | ok message =>
          cases message with
          | none =>
              rw [frame_of_none hparse] at h
              cases h
          | some message =>
              rw [frame_of_some hparse] at h
              cases h
              exact ⟨p', rfl, rfl, rfl⟩

/-- A call that asks for more leaves the messages to come as they are. -/
theorem framing_drain_of_none (h : p.parseMessage X = (.ok none, p')) (x : Bytes) :
    (framing X).drain p'.state (p'.buffer.data ++ x) =
      (framing X).drain p.state (p.buffer.data ++ x) := by
  have hmore : (framing X).step p.state p.buffer.data = .more p'.state p'.buffer.data :=
    frame_of_none h
  rw [(framing X).drain_append p.state, (framing X).drain_of_more hmore]
  rfl

theorem framing_drain_of_some (h : p.parseMessage X = (.ok (some m), p')) (x : Bytes) :
    (framing X).drain p.state (p.buffer.data ++ x) =
      (m :: ((framing X).drain p'.state (p'.buffer.data ++ x)).1,
        ((framing X).drain p'.state (p'.buffer.data ++ x)).2) := by
  apply (framing X).drain_of_emit
  change frame X p.state (p.buffer.data ++ x) = _
  rw [frame_append, frame_of_some h]
  rfl

end ParseMessage

end FreeswitchEsl
