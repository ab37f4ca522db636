import FreeswitchEsl.Protocol.Bounds

/-!
# Draining ends

`parse_message` calls itself once at most, behind a header block that announces a body.
An announced body is never empty, so every message takes bytes out of the buffer and the
loop that asks for messages comes to its end.
-/

namespace FreeswitchEsl

open Text

variable (X : Crates)

/-! ## Calls -/

/-- `parse_message` with its call of itself; nothing if `calls` calls are not enough. -/
def parseMessageCalls :
    Nat → EslParser → Option (EslResult (Option EslMessage) × EslParser)
  | 0, _ => none
  | calls + 1, p =>
      match p.state with
      | .waitingForHeaders =>
          match p.buffer.extractUntilPattern HEADER_TERMINATOR with
          | none => some (.ok none, p)
          | some (headersData, buffer) =>
              let p := { p with buffer := buffer.compact }
              match decodeHeaderBlock X headersData with
              | .error e => some (.error e, p)
              | .ok (messageType, headers, length) =>
                  if 0 < length then
                    parseMessageCalls calls
                      { p with state := .waitingForBody messageType headers length }
                  else some (.ok (some ⟨messageType, headers, none⟩),
                    { p with state := .waitingForHeaders })
      | .waitingForBody messageType headers length => some (p.parseBody messageType headers length)

/-- The loop around `parse_message`; nothing if it needs more than `calls` calls. -/
def drainLoop : Nat → EslParser → Option (List EslMessage × DrainEnd)
  | 0, _ => none
  | calls + 1, p =>
      match p.parseMessage X with
      | (.ok none, p') => some ([], .waiting p')
      | (.ok (some m), p') => (drainLoop calls p').map fun r ↦ (m :: r.1, r.2)
      | (.error e, _) => some ([], .failed e)

/-- The parsers that calls lead to, whatever the calls return. -/
inductive EslParser.Reachable : EslParser → Prop
  | new : Reachable EslParser.new
  | addData {p} (data : Bytes) : Reachable p → Reachable (p.addData data).2
  | parseMessage {p} : Reachable p → Reachable (p.parseMessage X).2

variable {X} {p p' q : EslParser} {m : EslMessage}

/-- The body of an announced length is read in the second call, which makes no third one. -/
theorem parseMessageCalls_add_two (calls : Nat) (p : EslParser) :
    parseMessageCalls X (calls + 2) p = some (p.parseMessage X) := by
  rw [parseMessageCalls, EslParser.parseMessage]
  cases p.state with
  | waitingForBody messageType headers length => rfl
  | waitingForHeaders =>
      cases p.buffer.extractUntilPattern HEADER_TERMINATOR with
      | none => rfl
      | some taken =>
          obtain ⟨headersData, buffer⟩ := taken
          dsimp only
          cases decodeHeaderBlock X headersData with
          | error e => rfl
          | ok block =>
              obtain ⟨messageType, headers, length⟩ := block
              dsimp only
              split
              · rfl
              · rfl

/-! ## Announced bodies -/

theorem state_parseBody (messageType : MessageType) (headers : HeaderMap) (length : Nat) :
    (p.parseBody messageType headers length).2.state = p.state ∨
      (p.parseBody messageType headers length).2.state = .waitingForHeaders := by
  unfold EslParser.parseBody
  split
  · exact Or.inl rfl
  · dsimp only
    split
    · exact Or.inl rfl
    · exact Or.inr rfl

theorem fits_parseBody (h : p.state.Fits) (messageType : MessageType) (headers : HeaderMap)
    (length : Nat) : (p.parseBody messageType headers length).2.state.Fits := by
  rcases @state_parseBody p messageType headers length with hstate | hstate
  · rwa [hstate]
  · rw [hstate]
    trivial

/-- Also a call that fails leaves no announced body but one that fits. -/
theorem fits_parseMessage (h : p.state.Fits) : (p.parseMessage X).2.state.Fits := by
  unfold EslParser.parseMessage
  split
  · split
    · exact h
    · rename_i hstate _ headersData buffer hextract
      dsimp only
      split
      · exact h
      · rename_i messageType headers length hblock
        obtain ⟨pos, hpos, rfl, -⟩ := EslBuffer.data_of_extractUntilPattern hextract
        obtain ⟨-, hfirst⟩ := cut_of_find hpos
        obtain ⟨-, hle⟩ := isBlock_of_decodeHeaderBlock hfirst hblock
        split
        · rename_i hlength
          exact @fits_parseBody ⟨buffer.compact, .waitingForBody messageType headers length⟩
            ⟨hlength, hle⟩ _ _ _
        · trivial
  · exact fits_parseBody h _ _ _

theorem EslParser.Reachable.fits (h : p.Reachable X) : p.state.Fits := by
  induction h with
  | new => trivial
  | addData _ _ ih => exact ih
  | parseMessage _ ih => exact fits_parseMessage ih

/-! ## Progress -/

theorem body_of_frameBody {messageType : MessageType} {headers : HeaderMap} {length : Nat}
    {b r : Bytes} {s : ParseState} (h : frameBody messageType headers length b = .emit m s r) :
    m.body ≠ none := by
  rw [frameBody] at h
  split at h
  · rw [decodeBody] at h
    cases hbody : utf8Decode (b.take length) with
    | none => simp [hbody] at h
    | some body =>
        rw [hbody] at h
        cases h
        exact Option.some_ne_none _
  · cases h

/-- A message takes its body, and its header block with the terminator, from the front. -/
theorem drop_of_frame_emit {s s' : ParseState} {b r : Bytes} (hfits : s.Fits)
    (h : frame X s b = .emit m s' r) :
    ∃ k, 0 < k ∧ k ≤ b.length ∧ r = b.drop k ∧ (m.body = none → 2 ≤ k) := by
  cases s with
  | waitingForBody messageType headers length =>
      obtain ⟨-, hle, rfl⟩ := frameBody_eq_emit h
      exact ⟨length, hfits.1, hle, rfl, fun hnone ↦ absurd hnone (body_of_frameBody h)⟩
  | waitingForHeaders =>
      cases hpos : Pattern.find HEADER_TERMINATOR b with
      | none => simp [frame, hpos] at h
      | some pos =>
          have hle : pos + 2 ≤ b.length := Pattern.add_length_le_of_find hpos
          simp only [frame, hpos] at h
          cases hblock : decodeHeaderBlock X (b.take pos) with
          | error e => simp [hblock] at h
          | ok block =>
              obtain ⟨messageType, headers, length⟩ := block
              simp only [hblock] at h
              split at h
              · obtain ⟨-, hbody, rfl⟩ := frameBody_eq_emit h
                rw [List.length_drop] at hbody
                refine ⟨pos + 2 + length, by omega, by omega, ?_, fun _ ↦ by omega⟩
                rw [List.drop_drop]
              · cases h
                exact ⟨pos + 2, by omega, hle, rfl, fun _ ↦ by omega⟩

theorem drop_of_parseMessage (hfits : p.state.Fits) (h : p.parseMessage X = (.ok (some m), p')) :
    p'.state = .waitingForHeaders ∧
      ∃ k, 0 < k ∧ k ≤ p.buffer.len ∧ p'.buffer.data = p.buffer.data.drop k ∧
        (m.body = none → 2 ≤ k) := by
  have hframe := frame_of_some h
  rw [← EslBuffer.length_data]
  exact ⟨waiting_of_frame_emit hframe, drop_of_frame_emit hfits hframe⟩

/-- One call for each byte, and one that asks for more, are enough. -/
theorem drainLoop_eq_drain (hfits : p.state.Fits) {calls : Nat} (h : p.buffer.len < calls) :
    drainLoop X calls p = some (drain X p) := by
  induction calls generalizing p with
  | zero => exact absurd h (Nat.not_lt_zero _)
  | succ calls ih =>
      rw [drainLoop]
      cases hparse : p.parseMessage X with
      | mk result p' =>
          match result with
          | .error e => rw [drain_of_error X hparse]
          | .ok none => rw [drain_of_none X hparse]
          | .ok (some m) =>
              obtain ⟨hstate, k, hpos, hle, hdata, -⟩ := drop_of_parseMessage hfits hparse
              have hshorter : p'.buffer.len < calls := by
                rw [← EslBuffer.length_data, hdata, List.length_drop, EslBuffer.length_data]
                omega
              have hrest : drainLoop X calls p' = some (drain X p') := by
                apply ih _ hshorter
                rw [hstate]
                trivial
              rw [drain_of_some X hparse]
              dsimp only
              rw [hrest, Option.map_some]

/-- In the state of any parser that calls lead to, with any contents of the buffer: the
loop ends, a call makes at most one more, and every message consumes bytes. -/
theorem drainLoop_ends (hq : q.Reachable X) (hstate : p.state = q.state) :
    drainLoop X (p.buffer.len + 1) p = some (drain X p) ∧
      parseMessageCalls X 2 p = some (p.parseMessage X) ∧
      ∀ m p', p.parseMessage X = (.ok (some m), p') →
        p'.state = .waitingForHeaders ∧
          ∃ k, 0 < k ∧ k ≤ p.buffer.len ∧ p'.buffer.data = p.buffer.data.drop k ∧
            (m.body = none → 2 ≤ k) := by
  have hfits : p.state.Fits := by
    rw [hstate]
    exact hq.fits
  exact ⟨drainLoop_eq_drain hfits (Nat.lt_succ_self _), parseMessageCalls_add_two 0 p,
    fun m p' h ↦ drop_of_parseMessage hfits h⟩

theorem drainLoop_ends_bodyPending :
    let q := ((EslParser.new.addData (utf8Encode
      "Content-Type: api/response\nContent-Length: 4\n\nup".toList)).2.parseMessage .percentOnly).2
    let p := (q.addData (utf8Encode "!!".toList)).2
    drainLoop .percentOnly (p.buffer.len + 1) p = some (drain .percentOnly p) := by
  intro q p
  have hq : q.Reachable .percentOnly := .parseMessage (.addData _ .new)
  have hstate : p.state = q.state := rfl
  exact (drainLoop_ends hq hstate).1

end FreeswitchEsl
