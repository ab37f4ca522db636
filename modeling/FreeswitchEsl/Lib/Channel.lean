import Mathlib.Tactic.Common

/-!
# Bounded channels

A first-in first-out channel of fixed capacity with one receiver.  Sending never
waits: it fails when the channel is full or the receiver is gone.  The channel
remembers what has been received, so that statements can speak of the whole
sequence of sent values.
-/

universe u

inductive BoundedChannel.SendResult where
  | ok
  | full
  | closed
  deriving DecidableEq

/-- A channel whose queue fits its capacity. -/
structure BoundedChannel (α : Type u) where
  capacity : Nat
  queue : List α
  received : List α
  receiverAlive : Bool
  senderAlive : Bool
  capacity_pos : 0 < capacity
  queue_le : queue.length ≤ capacity

namespace BoundedChannel

variable {α : Type u} {c d : BoundedChannel α} {a : α}

def empty (capacity : Nat) (h : 0 < capacity) : BoundedChannel α :=
  ⟨capacity, [], [], true, true, h, Nat.zero_le _⟩

/-- All values sent, in order: those received and those still queued. -/
def log (c : BoundedChannel α) : List α := c.received ++ c.queue

def trySend (c : BoundedChannel α) (a : α) : SendResult × BoundedChannel α :=
  if c.receiverAlive = false then (.closed, c)
  else if h : c.queue.length < c.capacity then
    (.ok, { c with
      queue := c.queue ++ [a]
      queue_le := by simpa [Nat.succ_le_iff] using h })
  else (.full, c)

/-- The receiver takes the oldest value, if there is one. -/
def recv (c : BoundedChannel α) : Option (BoundedChannel α) :=
  if c.receiverAlive then
    match h : c.queue with
    | [] => none
    | a :: rest => some { c with
        queue := rest
        received := c.received ++ [a]
        queue_le := by
          have hle := c.queue_le
          rw [h, List.length_cons] at hle
          omega }
  else none

/-- The receiver goes away, and what is queued with it. -/
def dropReceiver (c : BoundedChannel α) : BoundedChannel α :=
  { c with receiverAlive := false, queue := [], queue_le := Nat.zero_le _ }

def dropSender (c : BoundedChannel α) : BoundedChannel α := { c with senderAlive := false }

/-- The channel with one more value in the queue. -/
def push (c : BoundedChannel α) (a : α) (h : c.queue.length < c.capacity) : BoundedChannel α :=
  { c with
    queue := c.queue ++ [a]
    queue_le := by simpa [Nat.succ_le_iff] using h }

@[simp] theorem length_queue_push (h : c.queue.length < c.capacity) :
    (c.push a h).queue.length = c.queue.length + 1 := by
  simp [push]

theorem log_push (h : c.queue.length < c.capacity) : (c.push a h).log = c.log ++ [a] := by
  simp [push, log]

theorem trySend_cases (c : BoundedChannel α) (a : α) :
    ((c.trySend a).1 = .ok ∧ c.receiverAlive = true ∧ c.queue.length < c.capacity ∧
        (c.trySend a).2.log = c.log ++ [a] ∧
        (c.trySend a).2.received = c.received ∧ (c.trySend a).2.receiverAlive = true) ∨
      (c.trySend a = (.full, c) ∧ c.receiverAlive = true ∧ c.queue.length = c.capacity) ∨
      (c.trySend a = (.closed, c) ∧ c.receiverAlive = false) := by
  unfold trySend
  by_cases halive : c.receiverAlive = false
  · rw [if_pos halive]
    exact Or.inr (Or.inr ⟨rfl, halive⟩)
  · have halive' : c.receiverAlive = true := by simpa using halive
    rw [if_neg halive]
    split
    · rename_i hspace
      refine Or.inl ⟨rfl, halive', hspace, ?_, rfl, halive'⟩
      simp [log]
    · rename_i hfull
      have hle := c.queue_le
      exact Or.inr (Or.inl ⟨rfl, halive', by omega⟩)

/-- Sending adds to what has been sent, or changes nothing. -/
theorem log_prefix_trySend (c : BoundedChannel α) (a : α) : c.log <+: (c.trySend a).2.log := by
  rcases c.trySend_cases a with ⟨-, -, -, hlog, -⟩ | ⟨htry, -⟩ | ⟨htry, -⟩
  · exact ⟨[a], hlog.symm⟩
  · exact (congrArg (fun r ↦ c.log <+: r.2.log) htry).mpr List.prefix_rfl
  · exact (congrArg (fun r ↦ c.log <+: r.2.log) htry).mpr List.prefix_rfl

theorem trySend_of_lt (halive : c.receiverAlive = true) (hspace : c.queue.length < c.capacity) :
    c.trySend a = (.ok, c.push a hspace) := by
  unfold trySend
  rw [if_neg (by simp [halive]), dif_pos hspace]
  rfl

theorem trySend_of_full (halive : c.receiverAlive = true) (hfull : c.queue.length = c.capacity) :
    c.trySend a = (.full, c) := by
  unfold trySend
  rw [if_neg (by simp [halive]), dif_neg (by omega)]

theorem trySend_of_closed (h : c.receiverAlive = false) : c.trySend a = (.closed, c) := by
  unfold trySend
  rw [if_pos h]

@[simp] theorem capacity_trySend : (c.trySend a).2.capacity = c.capacity := by
  unfold trySend
  split
  · rfl
  · split <;> rfl

@[simp] theorem senderAlive_trySend : (c.trySend a).2.senderAlive = c.senderAlive := by
  unfold trySend
  split
  · rfl
  · split <;> rfl

theorem senderAlive_of_recv (h : c.recv = some d) : d.senderAlive = c.senderAlive := by
  unfold recv at h
  split at h
  · split at h
    · cases h
    · obtain rfl := Option.some.inj h
      rfl
  · cases h

theorem of_recv (h : c.recv = some d) :
    ∃ a rest, c.queue = a :: rest ∧ d.queue = rest ∧ d.received = c.received ++ [a] ∧
      d.log = c.log ∧ d.receiverAlive = c.receiverAlive ∧ d.capacity = c.capacity := by
  unfold recv at h
  split at h
  · split at h
    · cases h
    · rename_i a rest hqueue
      obtain rfl := Option.some.inj h
      exact ⟨a, rest, hqueue, rfl, rfl, by simp [log, hqueue], rfl, rfl⟩
  · cases h

end BoundedChannel
