import FreeswitchEsl.Lib.Transition
import Mathlib.Logic.Function.Basic

/-!
# Keyed machines

A machine with a cell for every key, in which an input acts on the cell of its key alone.
What a run leaves in a cell depends on the inputs for that key only, so logs that agree key
by key are interchangeable.  When every input either fixes a view of the cell or leaves it
alone, the last one that fixes it decides, and a log can be replayed over a later snapshot.
-/

/-- The key of an input, nothing when it acts on no cell, and what it does to the cell. -/
structure Keyed (κ σ ε : Type*) where
  key : ε → Option κ
  act : ε → σ → σ

namespace Keyed

variable {κ σ ε β S α : Type*} (M : Keyed κ σ ε)

def cell (c : σ) (es : List ε) : σ := es.foldl (fun c e ↦ M.act e c) c

variable {M} {es : List ε}

/-! ## Views that inputs decide -/

/-- The last of the values that the inputs fix. -/
def lastFixed (fixes : ε → Option β) (es : List ε) : Option β := (es.filterMap fixes).getLast?

theorem lastFixed_append (fixes : ε → Option β) (es es' : List ε) :
    lastFixed fixes (es ++ es') = (lastFixed fixes es').or (lastFixed fixes es) := by
  rw [lastFixed, List.filterMap_append, List.getLast?_append]
  rfl

theorem lastFixed_cons (fixes : ε → Option β) (e : ε) (es : List ε) :
    lastFixed fixes (e :: es) = (lastFixed fixes es).or (fixes e) := by
  rw [← List.singleton_append, lastFixed_append]
  congr 1
  cases h : fixes e <;> simp [lastFixed, h]

theorem lastFixed_eq_none_iff {fixes : ε → Option β} :
    lastFixed fixes es = none ↔ ∀ e ∈ es, fixes e = none := by
  simp [lastFixed]

variable {fixes : ε → Option β}

/-- The view of a cell is what was fixed last.  It is enough that an input fixes the view of
the cells that it leaves alive, when a dead cell cannot come alive by an input that fixes
nothing. -/
theorem view_cell (view : σ → β) (P : σ → Prop)
    (hview : ∀ e c, P (M.act e c) → view (M.act e c) = (fixes e).getD (view c))
    (halive : ∀ e c, fixes e = none → P (M.act e c) → P c) {c : σ} (hP : P (M.cell c es)) :
    view (M.cell c es) = (lastFixed fixes es).getD (view c) := by
  have hback : ∀ (es : List ε) (c : σ), lastFixed fixes es = none → P (M.cell c es) → P c := by
    intro es
    induction es with
    | nil => exact fun _ _ h ↦ h
    | cons e es ih =>
        intro c hnone h
        have hfixes := lastFixed_eq_none_iff.mp hnone
        have hrest := lastFixed_eq_none_iff.mpr fun d hd ↦ hfixes d (List.mem_cons_of_mem _ hd)
        exact halive e c (hfixes e List.mem_cons_self) (ih (M.act e c) hrest h)
  induction es generalizing c with
  | nil => rfl
  | cons e es ih =>
      have hstep : view (M.cell c (e :: es)) = (lastFixed fixes es).getD (view (M.act e c)) :=
        ih hP
      rw [hstep, lastFixed_cons]
      cases hlast : lastFixed fixes es with
      | some b => rfl
      | none => exact hview e c (hback es (M.act e c) hlast hP)

/-- A snapshot, and then again the end of the log that led to it and what came after, fix the
same as the whole log. -/
theorem lastFixed_replay (fixes : ε → Option β) (before again after : List ε) (b : β) :
    (lastFixed fixes (again ++ after)).getD ((lastFixed fixes (before ++ again)).getD b) =
      (lastFixed fixes (before ++ again ++ after)).getD b := by
  simp only [lastFixed_append]
  cases lastFixed fixes after <;> cases lastFixed fixes again <;> rfl

/-! ## Runs -/

variable [DecidableEq κ]

variable (M) in
def step (s : κ → σ) (e : ε) : κ → σ :=
  match M.key e with
  | some k => Function.update s k (M.act e (s k))
  | none => s

variable (M) in
def run (s : κ → σ) (es : List ε) : κ → σ := es.foldl M.step s

variable (M) in
/-- The inputs for one key, in order. -/
def inputs (es : List ε) (k : κ) : List ε := es.filter fun e ↦ decide (M.key e = some k)

variable {s : κ → σ} {k : κ}

theorem step_of_key {e : ε} (h : M.key e = some k) (s : κ → σ) :
    M.step s e = Function.update s k (M.act e (s k)) := by
  simp only [step, h]

theorem step_of_none {e : ε} (h : M.key e = none) (s : κ → σ) : M.step s e = s := by
  simp only [step, h]

theorem step_apply (s : κ → σ) (e : ε) (k : κ) :
    M.step s e k = if M.key e = some k then M.act e (s k) else s k := by
  cases hkey : M.key e with
  | none =>
      rw [step_of_none hkey, if_neg]
      exact Option.some_ne_none k ∘ Eq.symm
  | some k' =>
      rw [step_of_key hkey]
      by_cases hk : k' = k
      · subst hk
        rw [if_pos rfl, Function.update_self]
      · rw [if_neg fun h ↦ hk (Option.some.inj h), Function.update_of_ne (Ne.symm hk)]

theorem inputs_cons (e : ε) (es : List ε) (k : κ) :
    M.inputs (e :: es) k = if M.key e = some k then e :: M.inputs es k else M.inputs es k := by
  by_cases h : M.key e = some k <;> simp [inputs, h]

theorem run_cons (s : κ → σ) (e : ε) (es : List ε) :
    M.run s (e :: es) = M.run (M.step s e) es := rfl

theorem run_append (s : κ → σ) (es es' : List ε) :
    M.run s (es ++ es') = M.run (M.run s es) es' := List.foldl_append

/-- A cell sees the inputs for its key and no others. -/
theorem run_apply (s : κ → σ) (es : List ε) (k : κ) :
    M.run s es k = M.cell (s k) (M.inputs es k) := by
  induction es generalizing s with
  | nil => rfl
  | cons e es ih =>
      rw [run_cons, ih, step_apply, inputs_cons]
      split <;> rfl

/-! ## Stores -/

variable {next : S → α → Option S} {s₀ t : S} {as : List α}

/-- What a run of a system puts out, step by step. -/
def outputs (next : S → α → Option S) (out : S → α → List ε) : S → List α → List ε
  | _, [] => []
  | s, a :: as => out s a ++ ((next s a).map fun t ↦ outputs next out t as).getD []

/-- A system whose steps act on a store as the machine does on what they put out. -/
theorem read_of_run {read : S → κ → σ} {out : S → α → List ε}
    (hstep : ∀ s a t, next s a = some t → read t = M.run (read s) (out s a))
    (hrun : Transition.run next s₀ as = some t) :
    read t = M.run (read s₀) (outputs next out s₀ as) := by
  induction as generalizing s₀ with
  | nil =>
      obtain rfl : s₀ = t := Option.some.inj hrun
      rfl
  | cons a as ih =>
      obtain ⟨v, hv, hrest⟩ := Transition.run_cons_eq_some.mp hrun
      rw [outputs, hv, run_append, ← hstep s₀ a v hv]
      exact ih hrest

/-- A view that every step fixes or leaves alone is what the run fixed last. -/
theorem view_of_run (view : S → β) {fixes : α → Option β}
    (hstep : ∀ s a t, next s a = some t → view t = (fixes a).getD (view s))
    (hrun : Transition.run next s₀ as = some t) :
    view t = (lastFixed fixes as).getD (view s₀) := by
  induction as generalizing s₀ with
  | nil =>
      obtain rfl : s₀ = t := Option.some.inj hrun
      rfl
  | cons a as ih =>
      obtain ⟨v, hv, hrest⟩ := Transition.run_cons_eq_some.mp hrun
      rw [ih hrest, hstep s₀ a v hv, lastFixed_cons]
      cases lastFixed fixes as <;> rfl

end Keyed
