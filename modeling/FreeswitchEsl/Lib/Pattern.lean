import Mathlib.Data.List.Chain
import Mathlib.Data.Nat.Find

/-!
# First occurrence of a pattern in a list

The search tries every position in order.  An occurrence that was found stays
the first one when the list grows; the converse holds for occurrences that end
inside the shorter list.
-/

namespace Pattern

universe u

variable {β : Type u} {p l x : List β} {i : ℕ}

/-- `p` stands in `l` at position `i`. -/
def OccursAt (p l : List β) (i : ℕ) : Prop := (l.drop i).take p.length = p

instance [DecidableEq β] (p l : List β) (i : ℕ) : Decidable (OccursAt p l i) :=
  inferInstanceAs (Decidable ((l.drop i).take p.length = p))

/-- The first position at which a non-empty pattern stands in a list. -/
def find [DecidableEq β] (p l : List β) : Option ℕ :=
  if p = [] ∨ l.length < p.length then none else
    (List.range (l.length - p.length + 1)).find? fun i ↦ decide (OccursAt p l i)

theorem OccursAt.add_length_le (h : OccursAt p l i) (hp : p ≠ []) :
    i + p.length ≤ l.length := by
  have hlen := congrArg List.length h
  have hpos := List.length_pos_of_ne_nil hp
  simp only [List.length_take, List.length_drop] at hlen
  omega

theorem occursAt_append_iff (h : i + p.length ≤ l.length) :
    OccursAt p (l ++ x) i ↔ OccursAt p l i := by
  unfold OccursAt
  rw [List.drop_append_of_le_length (by omega),
    List.take_append_of_le_length (by rw [List.length_drop]; omega)]

section Find

variable [DecidableEq β]

theorem find_eq_some_iff :
    find p l = some i ↔ p ≠ [] ∧ OccursAt p l i ∧ ∀ j < i, ¬ OccursAt p l j := by
  unfold find
  split
  · rename_i h
    simp only [reduceCtorEq, false_iff, not_and]
    intro hp hocc
    have hle := hocc.add_length_le hp
    rcases h with h | h
    · exact absurd h hp
    · omega
  · rename_i h
    obtain ⟨hp, hlen⟩ := not_or.mp h
    rw [List.find?_range_eq_some]
    simp only [decide_eq_true_eq, List.mem_range, Bool.not_eq_eq_eq_not, Bool.not_true,
      decide_eq_false_iff_not]
    constructor
    · rintro ⟨hocc, -, hmin⟩
      exact ⟨hp, hocc, hmin⟩
    · rintro ⟨-, hocc, hmin⟩
      have hle := hocc.add_length_le hp
      exact ⟨hocc, by omega, hmin⟩

theorem add_length_le_of_find (h : find p l = some i) : i + p.length ≤ l.length := by
  obtain ⟨hp, hocc, -⟩ := find_eq_some_iff.mp h
  exact hocc.add_length_le hp

theorem find_append (h : find p l = some i) (x : List β) : find p (l ++ x) = some i := by
  have hle := add_length_le_of_find h
  obtain ⟨hp, hocc, hmin⟩ := find_eq_some_iff.mp h
  refine find_eq_some_iff.mpr ⟨hp, (occursAt_append_iff hle).mpr hocc, ?_⟩
  intro j hj
  rw [occursAt_append_iff (by omega)]
  exact hmin j hj

/-- No occurrence stands in front of the one that is found. -/
theorem le_length_of_find {u v : List β} (h : find p l = some i) (hl : l = u ++ p ++ v) :
    i ≤ u.length := by
  obtain ⟨-, -, hmin⟩ := find_eq_some_iff.mp h
  by_contra hlt
  exact hmin u.length (by omega) (by simp [OccursAt, hl])

theorem find_cons {c : β} (h : ¬ OccursAt p (c :: l) 0) :
    find p (c :: l) = (find p l).map (· + 1) := by
  have hsucc : ∀ j, OccursAt p (c :: l) (j + 1) ↔ OccursAt p l j := fun _ ↦ Iff.rfl
  apply Option.ext
  intro i
  rw [Option.map_eq_some_iff, find_eq_some_iff]
  constructor
  · rintro ⟨hp, hocc, hmin⟩
    cases i with
    | zero => exact absurd hocc h
    | succ j =>
        refine ⟨j, find_eq_some_iff.mpr ⟨hp, hocc, fun k hk ↦ ?_⟩, rfl⟩
        exact hmin (k + 1) (by omega)
  · rintro ⟨j, hj, rfl⟩
    obtain ⟨hp, hocc, hmin⟩ := find_eq_some_iff.mp hj
    refine ⟨hp, hocc, fun k hk ↦ ?_⟩
    cases k with
    | zero => exact h
    | succ k => exact hmin k (by omega)

/-- The list is cut at the first occurrence, which is the only one up to its end. -/
theorem split_of_find (h : find p l = some i) :
    l = l.take i ++ (p ++ l.drop (i + p.length)) ∧ find p (l.take i ++ p) = some i := by
  have hle := add_length_le_of_find h
  obtain ⟨hp, hocc, hmin⟩ := find_eq_some_iff.mp h
  have hsplit : l = l.take i ++ (p ++ l.drop (i + p.length)) := by
    have hdrop : p ++ l.drop (i + p.length) = l.drop i := by
      rw [← List.drop_drop]
      conv_lhs => rw [← hocc]
      rw [List.length_take, List.length_drop, min_eq_left (by omega), List.take_append_drop]
    rw [hdrop, List.take_append_drop]
  refine ⟨hsplit, find_eq_some_iff.mpr ⟨hp, ?_, ?_⟩⟩
  · simp [OccursAt, List.length_take, min_eq_left (show i ≤ l.length by omega)]
  · intro j hj hocc'
    apply hmin j hj
    rw [hsplit, ← List.append_assoc, occursAt_append_iff]
    · exact hocc'
    · rw [List.length_append, List.length_take]
      omega

/-- A pattern is first found right behind `l` if it does not already occur in
`l` and the part of the pattern that may overlap. -/
theorem find_append_pattern (hp : p ≠ []) (hl : ∀ j, ¬ OccursAt p (l ++ p.dropLast) j)
    (rest : List β) : find p (l ++ (p ++ rest)) = some l.length := by
  refine find_eq_some_iff.mpr ⟨hp, ?_, ?_⟩
  · simp [OccursAt]
  · intro j hj hocc
    have hpos := List.length_pos_of_ne_nil hp
    have hsplit : l ++ (p ++ rest) = (l ++ p.dropLast) ++ (p.getLast hp :: rest) := by
      conv_lhs => rw [← List.dropLast_append_getLast hp]
      simp
    rw [hsplit, occursAt_append_iff] at hocc
    · exact hl j hocc
    · rw [List.length_append, List.length_dropLast]
      omega

end Find

/-! ## Splitting -/

theorem exists_occursAt_iff (hp : p ≠ []) : (∃ j, OccursAt p l j) ↔ p <:+: l := by
  constructor
  · rintro ⟨j, hocc⟩
    refine ⟨l.take j, (l.drop j).drop p.length, ?_⟩
    conv_lhs => rw [← hocc]
    have hle := hocc.add_length_le hp
    rw [List.length_take, List.length_drop, min_eq_left (by omega), List.append_assoc,
      List.take_append_drop, List.take_append_drop]
  · rintro ⟨s, t, rfl⟩
    exact ⟨s.length, by simp [OccursAt]⟩

/-- A pattern whose last element is new does not overlap with the list in front of it. -/
theorem not_infix_append_dropLast (hp : p ≠ []) (hlast : p.getLast hp ∉ p.dropLast)
    (h : ¬ p <:+: l) : ¬ p <:+: l ++ p.dropLast := by
  rintro ⟨s, t, heq⟩
  have hp' := List.dropLast_append_getLast hp
  generalize p.getLast hp = c at hlast hp'
  generalize p.dropLast = q at hlast hp' heq
  subst hp'
  have hcut : s ++ q ++ c :: t = l ++ q := by simpa using heq
  rcases List.append_eq_append_iff.mp hcut with ⟨u, hl, hu⟩ | ⟨u, -, hu⟩
  · cases u with
    | nil =>
        rw [List.nil_append] at hu
        exact hlast (hu ▸ List.mem_cons_self)
    | cons d u =>
        obtain ⟨rfl, -⟩ := List.cons.inj hu
        exact h ⟨s, u, by simp [hl]⟩
  · apply hlast
    rw [hu]
    exact List.mem_append_right _ List.mem_cons_self

section Split

variable [DecidableEq β]

/-- The parts between the occurrences of a pattern, found one behind the other. -/
@[semireducible] def split (p l : List β) : List (List β) :=
  match _h : find p l with
  | none => [l]
  | some i => l.take i :: split p (l.drop (i + p.length))
termination_by l.length
decreasing_by
  have hle := add_length_le_of_find _h
  have hpos := List.length_pos_of_ne_nil (find_eq_some_iff.mp _h).1
  rw [List.length_drop]
  omega

theorem split_of_none (h : find p l = none) : split p l = [l] := by
  rw [split]
  split <;> simp_all

theorem split_of_some (h : find p l = some i) :
    split p l = l.take i :: split p (l.drop (i + p.length)) := by
  rw [split]
  split <;> simp_all

theorem split_ne_nil : split p l ≠ [] := by
  cases hfind : find p l with
  | none =>
      rw [split_of_none hfind]
      exact List.cons_ne_nil _ _
  | some i =>
      rw [split_of_some hfind]
      exact List.cons_ne_nil _ _

/-- Nothing is lost: the parts with the pattern between them are the list. -/
theorem intercalate_split (p l : List β) : p.intercalate (split p l) = l := by
  induction l using split.induct p with
  | case1 l hfind => rw [split_of_none hfind, List.intercalate_singleton]
  | case2 l i hfind ih =>
      rw [split_of_some hfind]
      obtain ⟨part, parts, hparts⟩ := List.exists_cons_of_ne_nil
        (split_ne_nil (p := p) (l := l.drop (i + p.length)))
      rw [hparts] at ih ⊢
      rw [List.intercalate_cons_cons, ih, List.append_assoc]
      exact (split_of_find hfind).1.symm

theorem find_eq_none_iff (hp : p ≠ []) : find p l = none ↔ ¬ p <:+: l := by
  rw [← exists_occursAt_iff hp]
  constructor
  · rintro hnone ⟨i, hocc⟩
    have hfirst : find p l = some (Nat.find ⟨i, hocc⟩) :=
      find_eq_some_iff.mpr ⟨hp, Nat.find_spec ⟨i, hocc⟩, fun j hj ↦ Nat.find_min _ hj⟩
    rw [hnone] at hfirst
    cases hfirst
  · intro h
    rw [Option.eq_none_iff_forall_ne_some]
    intro i hfind
    exact h ⟨i, (find_eq_some_iff.mp hfind).2.1⟩

/-- Parts without the pattern are found again behind one another. -/
theorem split_intercalate (hp : p ≠ []) (hlast : p.getLast hp ∉ p.dropLast)
    {parts : List (List β)} (hne : parts ≠ []) (h : ∀ part ∈ parts, ¬ p <:+: part) :
    split p (p.intercalate parts) = parts := by
  induction parts with
  | nil => exact absurd rfl hne
  | cons part parts ih =>
      have hpart := h part List.mem_cons_self
      cases parts with
      | nil => rw [List.intercalate_singleton, split_of_none ((find_eq_none_iff hp).mpr hpart)]
      | cons part' parts =>
          have hclean : ∀ j, ¬ OccursAt p (part ++ p.dropLast) j := fun j hocc ↦
            not_infix_append_dropLast hp hlast hpart ((exists_occursAt_iff hp).mp ⟨j, hocc⟩)
          have hrest := ih (List.cons_ne_nil _ _) fun q hq ↦ h q (List.mem_cons_of_mem _ hq)
          rw [List.intercalate_cons_cons, List.append_assoc]
          rw [split_of_some (find_append_pattern hp hclean _), List.take_left', ← List.drop_drop,
            List.drop_left', List.drop_left', hrest]
          all_goals rfl

end Split

/-! ## Doubled separators -/

/-- The element `c` does not stand twice in a row. -/
def NoDouble (c : β) (l : List β) : Prop := l.IsChain fun a b ↦ ¬ (a = c ∧ b = c)

theorem not_occursAt_of_noDouble {c : β} (h : NoDouble c l) (j : ℕ) :
    ¬ OccursAt [c, c] l j := by
  intro hocc
  have hle : j + 2 ≤ l.length := hocc.add_length_le (by simp)
  have hget := List.isChain_iff_getElem.mp h j (by omega)
  have hdrop : l.drop j = l[j] :: l[j + 1] :: l.drop (j + 2) := by
    rw [List.drop_eq_getElem_cons (by omega), List.drop_eq_getElem_cons (by omega)]
  have htake : (l.drop j).take 2 = [c, c] := hocc
  rw [hdrop] at htake
  simp only [List.take_succ_cons, List.take_zero, List.cons.injEq, and_true] at htake
  exact hget htake

theorem noDouble_of_notMem {c : β} (h : c ∉ l) : NoDouble c l := by
  rw [NoDouble, List.isChain_iff_getElem]
  rintro i hi ⟨hc, -⟩
  exact h (hc ▸ List.getElem_mem _)

theorem noDouble_flatMap {c : β} {ls : List (List β)} (h : ∀ l ∈ ls, l ≠ [] ∧ c ∉ l) :
    NoDouble c (ls.flatMap fun l ↦ l ++ [c]) := by
  induction ls with
  | nil => exact List.IsChain.nil
  | cons l ls ih =>
      have hl := h l (by simp)
      have hls : ∀ l ∈ ls, l ≠ [] ∧ c ∉ l := fun m hm ↦ h m (by simp [hm])
      rw [List.flatMap_cons, NoDouble, List.isChain_append]
      refine ⟨?_, ih hls, ?_⟩
      · rw [List.isChain_append]
        refine ⟨noDouble_of_notMem hl.2, List.IsChain.singleton c, ?_⟩
        rintro x hx y - ⟨rfl, -⟩
        exact hl.2 (List.mem_of_getLast? hx)
      · rintro x - y hy ⟨-, rfl⟩
        cases ls with
        | nil => simp at hy
        | cons m ms =>
            have hm := hls m (by simp)
            obtain ⟨d, m, rfl⟩ := List.exists_cons_of_ne_nil hm.1
            simp_all

theorem flatMap_append_eq_intercalate {c : β} {ls : List (List β)} (h : ls ≠ []) :
    (ls.flatMap fun l ↦ l ++ [c]) = [c].intercalate ls ++ [c] := by
  induction ls with
  | nil => exact absurd rfl h
  | cons l ls ih =>
      cases ls with
      | nil => simp
      | cons l' ls =>
          rw [List.flatMap_cons, ih (by simp), List.intercalate_cons_cons]
          simp

theorem find_intercalate [DecidableEq β] {c : β} {ls : List (List β)} (hne : ls ≠ [])
    (h : ∀ l ∈ ls, l ≠ [] ∧ c ∉ l) (rest : List β) :
    find [c, c] ([c].intercalate ls ++ ([c, c] ++ rest)) = some ([c].intercalate ls).length := by
  refine find_append_pattern (by simp) ?_ rest
  change ∀ j, ¬ OccursAt [c, c] ([c].intercalate ls ++ [c]) j
  rw [← flatMap_append_eq_intercalate hne]
  exact not_occursAt_of_noDouble (noDouble_flatMap h)

end Pattern
