import FreeswitchEsl.Error
import FreeswitchEsl.Lib.Pattern

/-!
# The receive buffer

`EslBuffer` keeps the received bytes and a read position.  Allocation
(`BUF_CHUNK`, capacity, `reserve`) has no effect on the contents and is left out.
-/

namespace FreeswitchEsl

open Text

def MAX_BUFFER_SIZE : Nat := 16 * 1024 * 1024

/-- The raw bytes and the read position, which never passes their end. -/
structure EslBuffer where
  buffer : Bytes
  position : Nat
  position_le : position ≤ buffer.length

namespace EslBuffer

def new : EslBuffer := ⟨[], 0, le_rfl⟩

def data (b : EslBuffer) : Bytes := b.buffer.drop b.position

def len (b : EslBuffer) : Nat := b.buffer.length - b.position

def extendFromSlice (b : EslBuffer) (bytes : Bytes) : EslBuffer where
  buffer := b.buffer ++ bytes
  position := b.position
  position_le := by
    have h := b.position_le
    simp only [List.length_append]
    omega

/-- Consume bytes from the front; refused if there are not that many. -/
def advance (b : EslBuffer) (count : Nat) : EslResult EslBuffer :=
  if h : count ≤ b.len then
    .ok ⟨b.buffer, b.position + count, by
      have hle := b.position_le
      unfold len at h
      omega⟩
  else
    .error (.protocolError ("cannot advance ".toList ++ displayNat count ++
      " bytes, only ".toList ++ displayNat b.len ++ " available".toList))

/-- The position of the first occurrence of a pattern in the data. -/
def findPattern (b : EslBuffer) (pattern : Bytes) : Option Nat :=
  Pattern.find pattern b.data

/-- The buffer after an `advance` whose error the source discards. -/
def advanced (b : EslBuffer) (count : Nat) : EslBuffer :=
  match b.advance count with
  | .ok b' => b'
  | .error _ => b

/-- The data up to the pattern, which is consumed together with it. -/
def extractUntilPattern (b : EslBuffer) (pattern : Bytes) : Option (Bytes × EslBuffer) :=
  match b.findPattern pattern with
  | some pos => some (b.data.take pos, b.advanced (pos + pattern.length))
  | none => none

def extractBytes (b : EslBuffer) (count : Nat) : Option (Bytes × EslBuffer) :=
  if count ≤ b.len then some (b.data.take count, b.advanced count) else none

/-- Drop the consumed bytes: move the rest to the front and truncate. -/
def compact (b : EslBuffer) : EslBuffer :=
  if 0 < b.position then
    let remainingLen := b.len
    -- `copy_within(position.., 0)` overwrites the front and keeps the length
    let moved := if 0 < remainingLen then
      b.buffer.drop b.position ++ b.buffer.drop remainingLen else b.buffer
    ⟨moved.take remainingLen, 0, Nat.zero_le _⟩
  else b

/-- The size check looks at the raw bytes, consumed ones included. -/
def checkSizeLimits (b : EslBuffer) : EslResult Unit :=
  if MAX_BUFFER_SIZE < b.buffer.length then
    .error (.bufferOverflow b.buffer.length MAX_BUFFER_SIZE)
  else .ok ()

/-! ## The byte queue -/

@[simp] theorem length_data (b : EslBuffer) : b.data.length = b.len := List.length_drop

@[simp] theorem data_extendFromSlice (b : EslBuffer) (bytes : Bytes) :
    (b.extendFromSlice bytes).data = b.data ++ bytes := by
  simp [data, extendFromSlice, List.drop_append_of_le_length b.position_le]

theorem data_advanced {b : EslBuffer} {count : Nat} (h : count ≤ b.data.length) :
    (b.advanced count).data = b.data.drop count := by
  rw [length_data] at h
  simp [advanced, advance, h, data]

@[simp] theorem data_compact (b : EslBuffer) : b.compact.data = b.data := by
  unfold compact
  split
  · rename_i hpos
    have hle := b.position_le
    by_cases hlen : 0 < b.len
    · have hrest : b.len = (b.buffer.drop b.position).length := List.length_drop.symm
      simp only [hlen, if_true, data, List.drop_zero]
      rw [hrest, List.take_left']
      rfl
    · have hnil : b.data = [] := by
        apply List.eq_nil_of_length_eq_zero
        rw [length_data]
        omega
      have hzero : b.len = 0 := by omega
      rw [hnil]
      simp [data, hzero]
  · rfl

@[simp] theorem position_compact (b : EslBuffer) : b.compact.position = 0 := by
  unfold compact
  split
  · rfl
  · omega

theorem findPattern_eq (b : EslBuffer) (pattern : Bytes) :
    b.findPattern pattern = Pattern.find pattern b.data := rfl

theorem extractUntilPattern_eq_none {b : EslBuffer} {pattern : Bytes} :
    b.extractUntilPattern pattern = none ↔ Pattern.find pattern b.data = none := by
  rw [extractUntilPattern, findPattern_eq]
  cases Pattern.find pattern b.data <;> simp

theorem data_of_extractUntilPattern {b b' : EslBuffer} {pattern taken : Bytes}
    (h : b.extractUntilPattern pattern = some (taken, b')) :
    ∃ pos, Pattern.find pattern b.data = some pos ∧ taken = b.data.take pos ∧
      b'.data = b.data.drop (pos + pattern.length) := by
  rw [extractUntilPattern, findPattern_eq] at h
  cases hpos : Pattern.find pattern b.data with
  | none => simp [hpos] at h
  | some pos =>
      rw [hpos] at h
      obtain ⟨rfl, rfl⟩ := Prod.mk.inj (Option.some.inj h)
      exact ⟨pos, rfl, rfl, data_advanced (Pattern.add_length_le_of_find hpos)⟩

theorem extractBytes_eq_none {b : EslBuffer} {count : Nat} :
    b.extractBytes count = none ↔ b.data.length < count := by
  rw [extractBytes, length_data]
  split <;> simp <;> omega

theorem data_of_extractBytes {b b' : EslBuffer} {count : Nat} {taken : Bytes}
    (h : b.extractBytes count = some (taken, b')) :
    count ≤ b.data.length ∧ taken = b.data.take count ∧ b'.data = b.data.drop count := by
  rw [extractBytes] at h
  split at h
  · rename_i hle
    obtain ⟨rfl, rfl⟩ := Prod.mk.inj (Option.some.inj h)
    rw [← length_data] at hle
    exact ⟨hle, rfl, data_advanced hle⟩
  · simp at h

end EslBuffer

end FreeswitchEsl
