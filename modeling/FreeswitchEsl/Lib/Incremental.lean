import Mathlib.Tactic.Common

/-!
# Resumable decoders

A decoder works on a state and a buffer of input units.  One step either asks
for more input, or emits a value, or fails.  Its laws say that a verdict does
not change when more input follows, so the values decoded from a stream do not
depend on how the stream was cut into chunks.
-/

namespace Incremental

universe u

variable {σ β μ ε : Type u}

inductive Step (σ β μ ε : Type u) where
  /-- The buffer does not hold a complete value yet. -/
  | more (state : σ) (rest : List β)
  /-- A value was decoded. -/
  | emit (value : μ) (state : σ) (rest : List β)
  /-- The input is malformed. -/
  | fail (error : ε)

/-- The same outcome with further input behind the buffer. -/
def Step.extend (step : σ → List β → Step σ β μ ε) (x : List β) :
    Step σ β μ ε → Step σ β μ ε
  | .more s rest => step s (rest ++ x)
  | .emit m s rest => .emit m s (rest ++ x)
  | .fail e => .fail e

/-- A decoding step with its laws: an outcome survives an extension of the
input, and every emitted value makes the measure smaller. -/
structure Decoder (σ β μ ε : Type u) where
  step : σ → List β → Step σ β μ ε
  measure : σ → List β → Nat
  step_append : ∀ s b x, step s (b ++ x) = (step s b).extend step x
  measure_lt : ∀ {s b m s' r}, step s b = .emit m s' r → measure s' r < measure s b

/-- Where a decoder stands when it can decode no further value. -/
inductive Stop (σ β ε : Type u) where
  | waiting (state : σ) (rest : List β)
  | failed (error : ε)

namespace Decoder

variable (D : Decoder σ β μ ε)

/-- Decode values until more input is needed or an error occurs. -/
def drain (s : σ) (b : List β) : List μ × Stop σ β ε :=
  match _h : D.step s b with
  | .more s' rest => ([], .waiting s' rest)
  | .emit m s' rest =>
      let r := drain s' rest
      (m :: r.1, r.2)
  | .fail e => ([], .failed e)
termination_by D.measure s b
decreasing_by exact D.measure_lt _h

theorem drain_of_more {s s' : σ} {b r : List β} (h : D.step s b = .more s' r) :
    D.drain s b = ([], .waiting s' r) := by
  rw [drain]
  split <;> simp_all

theorem drain_of_emit {s s' : σ} {b r : List β} {m : μ} (h : D.step s b = .emit m s' r) :
    D.drain s b = (m :: (D.drain s' r).1, (D.drain s' r).2) := by
  rw [drain]
  split <;> simp_all

theorem drain_of_fail {s : σ} {b : List β} {e : ε} (h : D.step s b = .fail e) :
    D.drain s b = ([], .failed e) := by
  rw [drain]
  split <;> simp_all

/-- Continue from where a drained decoder stopped, with more input. -/
def resume (x : List β) : List μ × Stop σ β ε → List μ × Stop σ β ε
  | (ms, .waiting s r) => (ms ++ (D.drain s (r ++ x)).1, (D.drain s (r ++ x)).2)
  | (ms, .failed e) => (ms, .failed e)

/-- Draining a longer buffer is draining the shorter one and resuming. -/
theorem drain_append (s : σ) (b x : List β) :
    D.drain s (b ++ x) = D.resume x (D.drain s b) := by
  induction s, b using drain.induct D with
  | case1 s b s' r h =>
      have hstep : D.step s (b ++ x) = D.step s' (r ++ x) := by
        rw [D.step_append, h, Step.extend]
      have heq : D.drain s (b ++ x) = D.drain s' (r ++ x) := by
        rw [drain, drain, hstep]
      rw [D.drain_of_more h, resume, heq]
      simp
  | case2 s b m s' r h ih =>
      have hstep : D.step s (b ++ x) = .emit m s' (r ++ x) := by
        rw [D.step_append, h, Step.extend]
      rw [D.drain_of_emit hstep, D.drain_of_emit h, ih]
      cases hd : D.drain s' r with
      | mk ms stop => cases stop <;> simp [resume]
  | case3 s b e h =>
      have hstep : D.step s (b ++ x) = .fail e := by
        rw [D.step_append, h, Step.extend]
      rw [D.drain_of_fail hstep, D.drain_of_fail h, resume]

/-- More input only adds values. -/
theorem drain_prefix_append (s : σ) (b x : List β) :
    (D.drain s b).1 <+: (D.drain s (b ++ x)).1 := by
  rw [D.drain_append]
  cases hd : D.drain s b with
  | mk ms stop =>
      cases stop with
      | waiting s' r => exact List.prefix_append ms _
      | failed e => exact List.prefix_refl ms

/-- Encoded values that each decode in one step, whatever follows them, decode to
themselves when they stand one behind the other. -/
theorem drain_flatten {R : μ → List β → Prop} {s : σ} {ms : List μ} {ws : List (List β)}
    (hstep : ∀ m w, R m w → ∀ rest, D.step s (w ++ rest) = .emit m s rest)
    (h : List.Forall₂ R ms ws) (rest : List β) :
    D.drain s (ws.flatten ++ rest) = (ms ++ (D.drain s rest).1, (D.drain s rest).2) := by
  induction h with
  | nil => rfl
  | cons hR _ ih =>
      rw [List.flatten_cons, List.append_assoc, D.drain_of_emit (hstep _ _ hR _), ih]
      rfl

end Decoder

end Incremental
