import FreeswitchEsl.Buffer

/-!
# The buffer as a byte queue

A byte queue grows at the end and is consumed from the front.  The buffer, with its read
position and the bytes that it still keeps in front of it, is such a queue under any
sequence of operations.
-/

namespace FreeswitchEsl

/-! ## Operations -/

inductive BufferOp where
  | extendFromSlice (bytes : Bytes)
  | advance (count : Nat)
  | extractUntilPattern (pattern : Bytes)
  | extractBytes (count : Nat)
  | compact

/-- What an operation returns. -/
inductive BufferReply where
  | done
  | advanced (result : EslResult Unit)
  | extracted (bytes : Option Bytes)

namespace EslBuffer

def perform (b : EslBuffer) : BufferOp → BufferReply × EslBuffer
  | .extendFromSlice bytes => (.done, b.extendFromSlice bytes)
  | .advance count =>
      match b.advance count with
      | .ok b' => (.advanced (.ok ()), b')
      | .error e => (.advanced (.error e), b)
  | .extractUntilPattern pattern =>
      match b.extractUntilPattern pattern with
      | some (bytes, b') => (.extracted (some bytes), b')
      | none => (.extracted none, b)
  | .extractBytes count =>
      match b.extractBytes count with
      | some (bytes, b') => (.extracted (some bytes), b')
      | none => (.extracted none, b)
  | .compact => (.done, b.compact)

/-- The operations in turn, each with what it returned. -/
def performAll (b : EslBuffer) : List BufferOp → List (BufferOp × BufferReply) × EslBuffer
  | [] => ([], b)
  | op :: ops =>
      let rest := (b.perform op).2.performAll ops
      ((op, (b.perform op).1) :: rest.1, rest.2)

end EslBuffer

/-! ## The queue -/

/-- What an operation does to a byte queue. -/
inductive QueueStep : Bytes → BufferOp → BufferReply → Bytes → Prop
  | extended {q bytes} : QueueStep q (.extendFromSlice bytes) .done (q ++ bytes)
  | advanced {front rest} :
      QueueStep (front ++ rest) (.advance front.length) (.advanced (.ok ())) rest
  | refused {q count e} : q.length < count → QueueStep q (.advance count) (.advanced (.error e)) q
  | extractedUntil {before pattern rest} : pattern ≠ [] →
      (∀ u v, before ++ pattern ++ rest = u ++ pattern ++ v → before.length ≤ u.length) →
      QueueStep (before ++ pattern ++ rest) (.extractUntilPattern pattern)
        (.extracted (some before)) rest
  | notFound {q pattern} : pattern = [] ∨ ¬ pattern <:+: q →
      QueueStep q (.extractUntilPattern pattern) (.extracted none) q
  | extracted {front rest} :
      QueueStep (front ++ rest) (.extractBytes front.length) (.extracted (some front)) rest
  | tooShort {q count} : q.length < count →
      QueueStep q (.extractBytes count) (.extracted none) q
  | compacted {q} : QueueStep q .compact .done q

inductive QueueRun : Bytes → List (BufferOp × BufferReply) → Bytes → Prop
  | nil {q} : QueueRun q [] q
  | cons {q q' q'' op reply log} : QueueStep q op reply q' → QueueRun q' log q'' →
      QueueRun q ((op, reply) :: log) q''

def BufferOp.appended : BufferOp → Bytes
  | extendFromSlice bytes => bytes
  | _ => []

/-- How many bytes an operation has consumed, from what it returned. -/
def BufferReply.consumed : BufferOp → BufferReply → Nat
  | .advance count, .advanced (.ok _) => count
  | .extractUntilPattern pattern, .extracted (some bytes) => bytes.length + pattern.length
  | .extractBytes _, .extracted (some bytes) => bytes.length
  | _, _ => 0

def appendedBytes (log : List (BufferOp × BufferReply)) : Bytes := log.flatMap fun p ↦ p.1.appended

def consumedCount (log : List (BufferOp × BufferReply)) : Nat :=
  log.foldr (fun p count ↦ p.2.consumed p.1 + count) 0

section Queue

variable {q q' : Bytes} {op : BufferOp} {reply : BufferReply} {log : List (BufferOp × BufferReply)}

/-- A step consumes from the front of what was there and what it appends. -/
theorem QueueStep.eq_drop (h : QueueStep q op reply q') :
    reply.consumed op ≤ (q ++ op.appended).length ∧
      q' = (q ++ op.appended).drop (reply.consumed op) := by
  cases h with
  | extended => exact ⟨Nat.zero_le _, rfl⟩
  | advanced => simp [BufferReply.consumed, BufferOp.appended]
  | refused _ => simp [BufferReply.consumed, BufferOp.appended]
  | @extractedUntil before pattern rest _ _ =>
      have hlength : (before ++ pattern).length = before.length + pattern.length :=
        List.length_append
      simp only [BufferReply.consumed, BufferOp.appended, List.append_nil, ← hlength]
      exact ⟨by simp, by simp⟩
  | notFound _ => simp [BufferReply.consumed, BufferOp.appended]
  | extracted => simp [BufferReply.consumed, BufferOp.appended]
  | tooShort _ => simp [BufferReply.consumed, BufferOp.appended]
  | compacted => simp [BufferReply.consumed, BufferOp.appended]

theorem QueueRun.eq_drop (h : QueueRun q log q') :
    consumedCount log ≤ (q ++ appendedBytes log).length ∧
      q' = (q ++ appendedBytes log).drop (consumedCount log) := by
  induction h with
  | nil => simp [appendedBytes, consumedCount]
  | @cons q q' q'' op reply log hstep _ ih =>
      obtain ⟨hle, hq'⟩ := hstep.eq_drop
      obtain ⟨hrest, hq''⟩ := ih
      have hcount : consumedCount ((op, reply) :: log) =
          reply.consumed op + consumedCount log := rfl
      have hbytes : q ++ appendedBytes ((op, reply) :: log) =
          (q ++ op.appended) ++ appendedBytes log := by
        rw [List.append_assoc]
        rfl
      have hdrop : q' ++ appendedBytes log =
          (q ++ op.appended ++ appendedBytes log).drop (reply.consumed op) := by
        rw [hq', List.drop_append_of_le_length hle]
      rw [hdrop] at hrest hq''
      rw [hcount, hbytes]
      refine ⟨?_, ?_⟩
      · rw [List.length_drop] at hrest
        rw [List.length_append] at hrest ⊢
        omega
      · rw [hq'', List.drop_drop]

end Queue

/-! ## The buffer refines the queue -/

namespace EslBuffer

variable {b b' : EslBuffer}

theorem data_of_advance {count : Nat} (h : b.advance count = .ok b') :
    count ≤ b.data.length ∧ b'.data = b.data.drop count := by
  rw [advance] at h
  split at h
  · rename_i hle
    obtain rfl := Except.ok.inj h
    rw [length_data]
    exact ⟨hle, by simp [data]⟩
  · cases h

theorem length_lt_of_advance {count : Nat} {e : EslError} (h : b.advance count = .error e) :
    b.data.length < count := by
  rw [advance] at h
  split at h
  · cases h
  · rename_i hlt
    rw [length_data]
    exact not_le.mp hlt

/-- Every operation does to the data what it does to a byte queue. -/
theorem queueStep_perform (b : EslBuffer) (op : BufferOp) :
    QueueStep b.data op (b.perform op).1 (b.perform op).2.data := by
  cases op with
  | extendFromSlice bytes =>
      rw [perform, data_extendFromSlice]
      exact .extended
  | advance count =>
      rw [perform]
      cases hadvance : b.advance count with
      | ok b' =>
          obtain ⟨hle, hdata⟩ := data_of_advance hadvance
          have hfront : (b.data.take count).length = count := by
            rw [List.length_take, min_eq_left hle]
          have hstep := @QueueStep.advanced (b.data.take count) (b.data.drop count)
          rw [List.take_append_drop, hfront] at hstep
          rw [hdata]
          exact hstep
      | error e => exact .refused (length_lt_of_advance hadvance)
  | extractUntilPattern pattern =>
      rw [perform]
      cases hextract : b.extractUntilPattern pattern with
      | some taken =>
          obtain ⟨bytes, b'⟩ := taken
          obtain ⟨pos, hpos, rfl, hdata⟩ := data_of_extractUntilPattern hextract
          have hne : pattern ≠ [] := (Pattern.find_eq_some_iff.mp hpos).1
          have hsplit : b.data =
              b.data.take pos ++ pattern ++ b.data.drop (pos + pattern.length) := by
            rw [List.append_assoc]
            exact (Pattern.split_of_find hpos).1
          have hlength : (b.data.take pos).length = pos := by
            have hle := Pattern.add_length_le_of_find hpos
            rw [List.length_take, min_eq_left (by omega)]
          dsimp only
          rw [hdata]
          conv => arg 1; rw [hsplit]
          refine .extractedUntil hne fun u v huv ↦ ?_
          rw [hlength]
          exact Pattern.le_length_of_find hpos (hsplit.trans huv)
      | none =>
          refine .notFound ?_
          by_cases hne : pattern = []
          · exact Or.inl hne
          · have hnone := extractUntilPattern_eq_none.mp hextract
            exact Or.inr ((Pattern.find_eq_none_iff hne).mp hnone)
  | extractBytes count =>
      rw [perform]
      cases hextract : b.extractBytes count with
      | some taken =>
          obtain ⟨bytes, b'⟩ := taken
          obtain ⟨hle, rfl, hdata⟩ := data_of_extractBytes hextract
          have hfront : (b.data.take count).length = count := by
            rw [List.length_take, min_eq_left hle]
          have hstep := @QueueStep.extracted (b.data.take count) (b.data.drop count)
          rw [List.take_append_drop, hfront] at hstep
          dsimp only
          rw [hdata]
          exact hstep
      | none => exact .tooShort (extractBytes_eq_none.mp hextract)
  | compact =>
      rw [perform, data_compact]
      exact .compacted

theorem queueRun_performAll (b : EslBuffer) (ops : List BufferOp) :
    QueueRun b.data (b.performAll ops).1 (b.performAll ops).2.data := by
  induction ops generalizing b with
  | nil => exact .nil
  | cons op ops ih => exact .cons (b.queueStep_perform op) (ih _)

theorem map_fst_performAll (b : EslBuffer) (ops : List BufferOp) :
    (b.performAll ops).1.map Prod.fst = ops := by
  induction ops generalizing b with
  | nil => rfl
  | cons op ops ih => exact congrArg (op :: ·) (ih _)

/-- After any operations on a fresh buffer its data are the bytes appended without those
consumed, and the next operation does to them what it does to a byte queue. -/
theorem performAll_new (ops : List BufferOp) (op : BufferOp) :
    (new.performAll ops).1.map Prod.fst = ops ∧
      (new.performAll ops).2.position ≤ (new.performAll ops).2.buffer.length ∧
      (new.performAll ops).2.len = (new.performAll ops).2.data.length ∧
      QueueRun [] (new.performAll ops).1 (new.performAll ops).2.data ∧
      consumedCount (new.performAll ops).1 ≤ (appendedBytes (new.performAll ops).1).length ∧
      (new.performAll ops).2.data =
        (appendedBytes (new.performAll ops).1).drop (consumedCount (new.performAll ops).1) ∧
      QueueStep (new.performAll ops).2.data op ((new.performAll ops).2.perform op).1
        ((new.performAll ops).2.perform op).2.data := by
  have hrun := new.queueRun_performAll ops
  obtain ⟨hle, hdata⟩ := hrun.eq_drop
  exact ⟨new.map_fst_performAll ops, (new.performAll ops).2.position_le,
    (length_data _).symm, hrun, hle, hdata, queueStep_perform _ op⟩

end EslBuffer

end FreeswitchEsl
