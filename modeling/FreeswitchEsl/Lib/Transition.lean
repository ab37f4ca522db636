import Mathlib.Data.Option.Basic
import Mathlib.Tactic.Common

/-!
# Runs of a labelled transition function

A system is a partial function `step`: the state after a label, or nothing when
the label is not enabled.  A run performs a list of labels.  Invariants are
proved for one step and lifted to runs here, also when only the runs count whose
steps all meet a side condition.
-/

namespace Transition

variable {σ α : Type*}

/-- Perform the labels in order; a label that is not enabled makes the run
undefined. -/
def run (step : σ → α → Option σ) : σ → List α → Option σ
  | s, [] => some s
  | s, a :: as => (step s a).bind fun t ↦ run step t as

/-- Every step of the run is taken in a state that meets the condition `C`. -/
def Meets (step : σ → α → Option σ) (C : σ → α → Prop) : σ → List α → Prop
  | _, [] => True
  | s, a :: as => C s a ∧ ∀ t, step s a = some t → Meets step C t as

/-- Some step of the run is a step of `E`. -/
def Happens (step : σ → α → Option σ) (E : σ → α → Prop) : σ → List α → Prop
  | _, [] => False
  | s, a :: as => E s a ∨ ∃ t, step s a = some t ∧ Happens step E t as

variable {step : σ → α → Option σ} {s t u : σ} {a : α} {as bs : List α}

instance Meets.decidable {C : σ → α → Prop} [∀ s a, Decidable (C s a)] :
    ∀ (s : σ) (as : List α), Decidable (Meets step C s as)
  | _, [] => .isTrue trivial
  | s, a :: as =>
      match h : step s a with
      | some t =>
          have : Decidable (Meets step C t as) := Meets.decidable t as
          decidable_of_iff (C s a ∧ Meets step C t as) (by simp [Meets, h])
      | none => decidable_of_iff (C s a) (by simp [Meets, h])

theorem run_cons_eq_some :
    run step s (a :: as) = some u ↔ ∃ t, step s a = some t ∧ run step t as = some u := by
  simp only [run, Option.bind_eq_some_iff]

theorem run_append_eq_some :
    run step s (as ++ bs) = some u ↔ ∃ t, run step s as = some t ∧ run step t bs = some u := by
  induction as generalizing s with
  | nil => simp [run]
  | cons a as ih =>
      simp only [List.cons_append, run_cons_eq_some, ih]
      constructor
      · rintro ⟨v, hv, t, ht, hu⟩
        exact ⟨t, ⟨v, hv, ht⟩, hu⟩
      · rintro ⟨t, ⟨v, hv, ht⟩, hu⟩
        exact ⟨v, hv, t, ht, hu⟩

theorem run_concat (h : run step s as = some t) (ht : step t a = some u) :
    run step s (as ++ [a]) = some u :=
  run_append_eq_some.mpr ⟨t, h, run_cons_eq_some.mpr ⟨u, ht, rfl⟩⟩

/-- A condition on the labels alone. -/
theorem meets_of_forall {C : σ → α → Prop} (h : ∀ a ∈ as, ∀ s, C s a) : Meets step C s as := by
  induction as generalizing s with
  | nil => trivial
  | cons a as ih =>
      refine ⟨h a List.mem_cons_self s, fun t _ ↦ ih fun b hb ↦ ?_⟩
      exact h b (List.mem_cons_of_mem a hb)

/-- A run meets a condition if its first part does and the rest from there. -/
theorem Meets.of_append {C : σ → α → Prop} (h : Meets step C s (as ++ bs)) :
    Meets step C s as ∧ ∀ t, run step s as = some t → Meets step C t bs := by
  induction as generalizing s with
  | nil =>
      refine ⟨trivial, fun t ht ↦ ?_⟩
      have hst : s = t := Option.some.inj ht
      exact hst ▸ h
  | cons a as ih =>
      refine ⟨⟨h.1, fun t ht ↦ (ih (h.2 t ht)).1⟩, fun t ht ↦ ?_⟩
      obtain ⟨v, hv, hrest⟩ := run_cons_eq_some.mp ht
      exact (ih (h.2 v hv)).2 t hrest

theorem happens_append_of_run {E : σ → α → Prop} (hrun : run step s as = some t) (ht : E t a)
    (bs : List α) : Happens step E s (as ++ a :: bs) := by
  induction as generalizing s with
  | nil =>
      have hst : s = t := Option.some.inj hrun
      exact Or.inl (hst ▸ ht)
  | cons b as ih =>
      obtain ⟨v, hv, hrest⟩ := run_cons_eq_some.mp hrun
      exact Or.inr ⟨v, hv, ih hrest⟩

/-- A run whose final state passes a check, by evaluation. -/
theorem exists_run_of_any {P : σ → Prop} [DecidablePred P]
    (h : ((run step s as).any fun t ↦ P t) = true) : ∃ t, run step s as = some t ∧ P t := by
  obtain ⟨t, ht, hP⟩ := (Option.any_eq_true _ _).mp h
  exact ⟨t, ht, of_decide_eq_true hP⟩

/-- What one step preserves, under the condition of the step, a run preserves
whose steps all meet the condition. -/
theorem invariant_of_meets {C : σ → α → Prop} {I : σ → Prop}
    (hstep : ∀ s a t, I s → C s a → step s a = some t → I t)
    (hs : I s) (hrun : run step s as = some t) (hmeets : Meets step C s as) : I t := by
  induction as generalizing s with
  | nil =>
      have hst : s = t := Option.some.inj hrun
      exact hst ▸ hs
  | cons a as ih =>
      obtain ⟨v, hv, hrest⟩ := run_cons_eq_some.mp hrun
      exact ih (hstep s a v hs hmeets.1 hv) hrest (hmeets.2 v hv)

/-- What every step preserves, every run preserves. -/
theorem invariant_of_run {I : σ → Prop}
    (hstep : ∀ s a t, I s → step s a = some t → I t)
    (hs : I s) (hrun : run step s as = some t) : I t := by
  induction as generalizing s with
  | nil =>
      have hst : s = t := Option.some.inj hrun
      exact hst ▸ hs
  | cons a as ih =>
      obtain ⟨v, hv, hrest⟩ := run_cons_eq_some.mp hrun
      exact ih (hstep s a v hs hv) hrest

/-- Two conditions that agree on every step taken in a state of an invariant are
met by the same runs. -/
theorem meets_iff_of_invariant {C D : σ → α → Prop} {I : σ → Prop}
    (hstep : ∀ s a t, I s → step s a = some t → I t)
    (hagree : ∀ s a t, I s → step s a = some t → (C s a ↔ D s a))
    (hs : I s) (hrun : run step s as = some u) : Meets step C s as ↔ Meets step D s as := by
  induction as generalizing s with
  | nil => exact Iff.rfl
  | cons a as ih =>
      obtain ⟨v, hv, hrest⟩ := run_cons_eq_some.mp hrun
      have hnext := ih (hstep s a v hs hv) hrest
      simp only [Meets, hv, Option.some.injEq, forall_eq']
      rw [hagree s a v hs hv, hnext]

end Transition
