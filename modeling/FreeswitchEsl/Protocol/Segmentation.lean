import FreeswitchEsl.Percent
import FreeswitchEsl.Protocol.Framing

/-!
# The reading loops and the cuts of the stream

`recv_message` and `reader_loop_inner` feed the parser with whatever chunks the
socket delivers.  The messages they get out, and where they stop, depend on the
bytes only.
-/

namespace FreeswitchEsl

open Text Incremental

variable (X : Crates)

/-! ## The loops -/

/-- How the inner loop over `parse_message` ends. -/
inductive DrainEnd where
  | waiting (p : EslParser)
  | failed (error : EslError)

theorem frameMeasure_lt_of_parseMessage {p p' : EslParser} {m : EslMessage}
    (h : p.parseMessage X = (.ok (some m), p')) :
    frameMeasure p'.state p'.buffer.data < frameMeasure p.state p.buffer.data :=
  frameMeasure_lt X (frame_of_some h)

/-- Call `parse_message` until it returns `Ok(None)` or an error. -/
@[semireducible] def drain (p : EslParser) : List EslMessage × DrainEnd :=
  match _h : p.parseMessage X with
  | (.ok none, p') => ([], .waiting p')
  | (.ok (some m), p') =>
      let r := drain p'
      (m :: r.1, r.2)
  | (.error e, _) => ([], .failed e)
termination_by frameMeasure p.state p.buffer.data
decreasing_by exact frameMeasure_lt_of_parseMessage X _h

/-- How a reading loop ends when the given chunks are all that arrives. -/
inductive ReadEnd where
  | waiting (p : EslParser)
  | parseError (error : EslError)
  | bufferError (error : EslError)

/-- The loop of `reader_loop_inner`: drain the parser, then read a chunk. -/
def readerLoop (p : EslParser) (chunks : List Bytes) : List EslMessage × ReadEnd :=
  match drain X p with
  | (ms, .failed e) => (ms, .parseError e)
  | (ms, .waiting p') =>
      match chunks with
      | [] => (ms, .waiting p')
      | c :: cs =>
          match p'.addData c with
          | (.error e, _) => (ms, .bufferError e)
          | (.ok (), p'') =>
              let r := readerLoop p'' cs
              (ms ++ r.1, r.2)
termination_by structural chunks

/-- What `recv_message` returns, with the chunks it has not read. -/
inductive Received where
  | message (m : EslMessage) (p : EslParser) (unread : List Bytes)
  | stopped (outcome : ReadEnd)

/-- `recv_message`: read chunks until one message is complete. -/
def recvMessage (p : EslParser) (chunks : List Bytes) : Received :=
  match p.parseMessage X with
  | (.error e, _) => .stopped (.parseError e)
  | (.ok (some m), p') => .message m p' chunks
  | (.ok none, p') =>
      match chunks with
      | [] => .stopped (.waiting p')
      | c :: cs =>
          match p'.addData c with
          | (.error e, _) => .stopped (.bufferError e)
          | (.ok (), p'') => recvMessage p'' cs
termination_by structural chunks

/-- `recv_message` reads the first messages, as during the handshake; then the
parser is handed to the reader loop. -/
def session : ℕ → EslParser → List Bytes → List EslMessage × ReadEnd
  | 0, p, chunks => readerLoop X p chunks
  | k + 1, p, chunks =>
      match recvMessage X p chunks with
      | .message m p' unread =>
          let r := session k p' unread
          (m :: r.1, r.2)
      | .stopped outcome => ([], outcome)

/-! ## The loops compute the decoder -/

theorem drain_of_none {p p' : EslParser} (h : p.parseMessage X = (.ok none, p')) :
    drain X p = ([], .waiting p') := by
  rw [drain]
  split <;> simp_all

theorem drain_of_some {p p' : EslParser} {m : EslMessage}
    (h : p.parseMessage X = (.ok (some m), p')) :
    drain X p = (m :: (drain X p').1, (drain X p').2) := by
  rw [drain]
  split <;> simp_all

theorem drain_of_error {p p' : EslParser} {e : EslError}
    (h : p.parseMessage X = (.error e, p')) : drain X p = ([], .failed e) := by
  rw [drain]
  split <;> simp_all

/-- The place where a parser stands, as the decoder sees it. -/
def EslParser.stop (p : EslParser) : Stop ParseState UInt8 EslError :=
  .waiting p.state p.buffer.data

def DrainEnd.stop : DrainEnd → Stop ParseState UInt8 EslError
  | .waiting p => p.stop
  | .failed e => .failed e

/-- The end of a reading loop as the decoder sees it; it knows no size limit. -/
def ReadEnd.stop : ReadEnd → Option (Stop ParseState UInt8 EslError)
  | .waiting p => some p.stop
  | .parseError e => some (.failed e)
  | .bufferError _ => none

theorem drain_eq_framing (p : EslParser) :
    (framing X).drain p.state p.buffer.data = ((drain X p).1, (drain X p).2.stop) := by
  induction p using drain.induct X with
  | case1 p p' h =>
      rw [(framing X).drain_of_more (frame_of_none h), drain_of_none X h]
      rfl
  | case2 p m p' h ih =>
      rw [(framing X).drain_of_emit (frame_of_some h), ih, drain_of_some X h]
  | case3 p e p' h =>
      rw [(framing X).drain_of_fail (frame_of_error h), drain_of_error X h]
      rfl

/-- While the size limit is kept, the reader loop is one drain of all bytes. -/
theorem readerLoop_eq_framing (p : EslParser) (chunks : List Bytes)
    {stop : Stop ParseState UInt8 EslError}
    (h : (readerLoop X p chunks).2.stop = some stop) :
    (framing X).drain p.state (p.buffer.data ++ chunks.flatten) =
      ((readerLoop X p chunks).1, stop) := by
  induction chunks generalizing p with
  | nil =>
      have hdrain := drain_eq_framing X p
      rw [readerLoop] at h ⊢
      rw [List.flatten_nil, List.append_nil, hdrain]
      cases hd : drain X p with
      | mk ms stop' =>
          rw [hd] at h
          cases stop' <;> exact congrArg (ms, ·) (Option.some.inj h)
  | cons c cs ih =>
      have hdrain := drain_eq_framing X p
      rw [readerLoop] at h ⊢
      rw [(framing X).drain_append, hdrain]
      cases hd : drain X p with
      | mk ms stop' =>
          rw [hd] at h
          cases stop' with
          | failed e => exact congrArg (ms, ·) (Option.some.inj h)
          | waiting p' =>
              simp only at h ⊢
              cases hadd : p'.addData c with
              | mk verdict p'' =>
                  rw [hadd] at h
                  cases verdict with
                  | error e => cases h
                  | ok _ =>
                      -- the chunk only lengthens the data
                      have hp'' : p''.state = p'.state ∧
                          p''.buffer.data = p'.buffer.data ++ c := by
                        have hsnd : (p'.addData c).2 = p'' := by rw [hadd]
                        rw [← hsnd]
                        exact ⟨rfl, EslBuffer.data_extendFromSlice _ _⟩
                      have hrest := ih p'' h
                      rw [hp''.1, hp''.2, List.append_assoc] at hrest
                      simp only [DrainEnd.stop, EslParser.stop, Decoder.resume,
                        List.flatten_cons, hrest]

theorem readerLoop_of_some {p p' : EslParser} {m : EslMessage} (chunks : List Bytes)
    (h : p.parseMessage X = (.ok (some m), p')) :
    readerLoop X p chunks =
      (m :: (readerLoop X p' chunks).1, (readerLoop X p' chunks).2) := by
  rw [readerLoop.eq_def, readerLoop.eq_def X p', drain_of_some X h]
  cases drain X p' with
  | mk ms stop =>
      cases stop with
      | failed e => rfl
      | waiting q =>
          cases chunks with
          | nil => rfl
          | cons c cs =>
              dsimp only
              cases q.addData c with
              | mk result q' => cases result <;> rfl

theorem readerLoop_of_recvMessage (p : EslParser) (chunks : List Bytes) :
    readerLoop X p chunks =
      match recvMessage X p chunks with
      | .message m p' unread =>
          (m :: (readerLoop X p' unread).1, (readerLoop X p' unread).2)
      | .stopped outcome => ([], outcome) := by
  induction chunks generalizing p with
  | nil =>
      rw [recvMessage]
      cases hparse : p.parseMessage X with
      | mk verdict p' =>
          match verdict with
          | .error e => rw [readerLoop, drain_of_error X hparse]
          | .ok none => rw [readerLoop, drain_of_none X hparse]
          | .ok (some m) => exact readerLoop_of_some X [] hparse
  | cons c cs ih =>
      rw [recvMessage]
      cases hparse : p.parseMessage X with
      | mk verdict p' =>
          match verdict with
          | .error e => rw [readerLoop, drain_of_error X hparse]
          | .ok (some m) => exact readerLoop_of_some X (c :: cs) hparse
          | .ok none =>
              rw [readerLoop, drain_of_none X hparse]
              dsimp only
              cases hadd : p'.addData c with
              | mk result p'' =>
                  cases result with
                  | error e => rfl
                  | ok _ => simpa using ih p''

theorem session_eq_readerLoop (k : ℕ) (p : EslParser) (chunks : List Bytes) :
    session X k p chunks = readerLoop X p chunks := by
  induction k generalizing p chunks with
  | zero => rfl
  | succ k ih =>
      rw [session, readerLoop_of_recvMessage]
      cases recvMessage X p chunks with
      | stopped outcome => rfl
      | message m p' unread => simp only [ih]

/-! ## Independence of the cuts -/

/-- Two ways of reading end alike: with the same error, or waiting in the same
state with the same unconsumed bytes. -/
def ReadEnd.Agree : ReadEnd → ReadEnd → Prop
  | .waiting p, .waiting p' => p.state = p'.state ∧ p.buffer.data = p'.buffer.data
  | .parseError e, .parseError e' => e = e'
  | _, _ => False

theorem ReadEnd.agree_of_stop_eq {r r' : ReadEnd} {stop : Stop ParseState UInt8 EslError}
    (h : r.stop = some stop) (h' : r'.stop = some stop) : r.Agree r' := by
  have heq : r.stop = r'.stop := h.trans h'.symm
  cases r with
  | bufferError e => cases h
  | waiting p =>
      cases r' with
      | waiting p' =>
          obtain ⟨hstate, hdata⟩ := Stop.waiting.inj (Option.some.inj heq)
          exact ⟨hstate, hdata⟩
      | parseError e => cases Option.some.inj heq
      | bufferError e => cases h'
  | parseError e =>
      cases r' with
      | waiting p' => cases Option.some.inj heq
      | parseError e' => exact Stop.failed.inj (Option.some.inj heq)
      | bufferError e => cases h'

theorem ReadEnd.exists_stop {r : ReadEnd} (h : ∀ e, r ≠ .bufferError e) :
    ∃ stop, r.stop = some stop := by
  cases r with
  | waiting p => exact ⟨_, rfl⟩
  | parseError e => exact ⟨_, rfl⟩
  | bufferError e => exact absurd rfl (h e)

theorem ReadEnd.ne_bufferError {r : ReadEnd} (h : r.stop.isSome = true) :
    ∀ e, r ≠ .bufferError e := by
  rintro e rfl
  cases h

/-- Two ways of cutting the same bytes into chunks, with the parser handed over
after any number of messages, give the same messages and the same end, as long
as the size limit is kept. -/
theorem session_segmentation (k k' : ℕ) (chunks chunks' : List Bytes)
    (hbytes : chunks.flatten = chunks'.flatten)
    (hfits : ∀ e, (session X k EslParser.new chunks).2 ≠ .bufferError e)
    (hfits' : ∀ e, (session X k' EslParser.new chunks').2 ≠ .bufferError e) :
    (session X k EslParser.new chunks).1 = (session X k' EslParser.new chunks').1 ∧
      (session X k EslParser.new chunks).2.Agree (session X k' EslParser.new chunks').2 := by
  rw [session_eq_readerLoop] at hfits hfits' ⊢
  rw [session_eq_readerLoop]
  obtain ⟨stop, hstop⟩ := ReadEnd.exists_stop hfits
  obtain ⟨stop', hstop'⟩ := ReadEnd.exists_stop hfits'
  have hdrain := readerLoop_eq_framing X EslParser.new chunks hstop
  have hdrain' := readerLoop_eq_framing X EslParser.new chunks' hstop'
  rw [hbytes, hdrain'] at hdrain
  obtain ⟨hmessages, rfl⟩ := Prod.mk.inj hdrain
  exact ⟨hmessages.symm, ReadEnd.agree_of_stop_eq hstop hstop'⟩

theorem session_segmentation_auth_request :
    let whole := [utf8Encode "Content-Type: auth/request\n\n".toList]
    let halves := ["Content-Type: auth/req".toList, "uest\n\n".toList].map utf8Encode
    (session .percentOnly 1 EslParser.new whole).1 =
        (session .percentOnly 0 EslParser.new halves).1 ∧
      (session .percentOnly 1 EslParser.new whole).2.Agree
        (session .percentOnly 0 EslParser.new halves).2 :=
  session_segmentation .percentOnly 1 0 _ _ (by decide)
    (ReadEnd.ne_bufferError (by decide +kernel)) (ReadEnd.ne_bufferError (by decide +kernel))

end FreeswitchEsl
