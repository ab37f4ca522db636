import Mathlib.Data.List.Basic
import Mathlib.Tactic.Common

/-!
# Quotes and escapes

A text is read item by item.  A quote opens or closes, unless the item before it takes
this meaning from it.  The state of the automaton is that item and whether a quote is
open, so that texts written one behind the other are scanned one after the other.
-/

namespace Quoting

variable {α : Type*}

/-- The item before the next one. -/
def lastRead (prev : Option α) (s : List α) : Option α := s.foldl (fun _ c ↦ some c) prev

@[simp] theorem lastRead_nil (prev : Option α) : lastRead prev [] = prev := rfl

@[simp] theorem lastRead_cons (prev : Option α) (c : α) (s : List α) :
    lastRead prev (c :: s) = lastRead (some c) s := rfl

@[simp] theorem lastRead_append (prev : Option α) (s t : List α) :
    lastRead prev (s ++ t) = lastRead (lastRead prev s) t := List.foldl_append

theorem lastRead_eq_getLast? (prev : Option α) {s : List α} (h : s ≠ []) :
    lastRead prev s = s.getLast? := by
  rw [← List.dropLast_append_getLast h, lastRead_append, List.getLast?_concat]
  rfl

/-! ## Escaped items -/

/-- Every `x` in the text stands behind an escape. -/
def Escaped (escape x : α) : Option α → List α → Prop
  | _, [] => True
  | prev, c :: s => (c = x → prev = some escape) ∧ Escaped escape x (some c) s

section Escaped

variable {escape x : α} {prev : Option α} {s t : List α}

theorem escaped_of_notMem (h : x ∉ s) (prev : Option α) : Escaped escape x prev s := by
  induction s generalizing prev with
  | nil => trivial
  | cons c s ih =>
      obtain ⟨hc, hs⟩ : x ≠ c ∧ x ∉ s := by simpa using h
      exact ⟨fun h ↦ absurd h.symm hc, ih hs _⟩

theorem escaped_append :
    Escaped escape x prev (s ++ t) ↔
      Escaped escape x prev s ∧ Escaped escape x (lastRead prev s) t := by
  induction s generalizing prev with
  | nil => rw [List.nil_append, lastRead_nil, Escaped, true_and]
  | cons c s ih => rw [List.cons_append, Escaped, Escaped, ih, lastRead_cons, and_assoc]

/-- Nothing in front of the text is asked for more than nothing at all. -/
theorem Escaped.of_none (h : Escaped escape x none s) (prev : Option α) :
    Escaped escape x prev s := by
  cases s with
  | nil => trivial
  | cons c s => exact ⟨fun hc ↦ absurd (h.1 hc) nofun, h.2⟩

end Escaped

/-! ## Escaping -/

section Escape

variable [DecidableEq α] {escape x y : α} {prev : Option α} {s t : List α}

/-- Put an escape in front of every `x`. -/
def escapeItem (escape x : α) (s : List α) : List α :=
  s.flatMap fun c ↦ if c = x then [escape, x] else [c]

/-- Take the escapes in front of `x` away, from the left. -/
def unescapeItem (escape x : α) : List α → List α
  | c :: d :: rest =>
      if c = escape ∧ d = x then x :: unescapeItem escape x rest
      else c :: unescapeItem escape x (d :: rest)
  | s => s

theorem escapeItem_cons (escape x c : α) (s : List α) :
    escapeItem escape x (c :: s) =
      (if c = x then [escape, x] else [c]) ++ escapeItem escape x s :=
  List.flatMap_cons

theorem escapeItem_append (escape x : α) (s t : List α) :
    escapeItem escape x (s ++ t) = escapeItem escape x s ++ escapeItem escape x t :=
  List.flatMap_append

theorem escapeItem_ne_nil (h : s ≠ []) : escapeItem escape x s ≠ [] := by
  obtain ⟨c, s, rfl⟩ := List.exists_cons_of_ne_nil h
  rw [escapeItem_cons]
  split
  · exact List.cons_ne_nil _ _
  · exact List.cons_ne_nil _ _

theorem mem_escapeItem {c : α} (hc : c ≠ escape) : c ∈ escapeItem escape x s ↔ c ∈ s := by
  induction s with
  | nil => rfl
  | cons d s ih =>
      rw [escapeItem_cons, List.mem_append, ih, List.mem_cons]
      split
      · rename_i hd
        simp [hc, hd]
      · rw [List.mem_singleton]

theorem head?_escapeItem_ne (hx : x ≠ escape) : (escapeItem escape x s).head? ≠ some x := by
  cases s with
  | nil => nofun
  | cons c s =>
      rw [escapeItem_cons]
      split
      · simpa using hx.symm
      · rename_i hc
        simpa using hc

theorem head?_escapeItem_ne_of_ne {c : α} (hc : c ≠ escape) (h : s.head? ≠ some c) :
    (escapeItem escape x s).head? ≠ some c := by
  cases s with
  | nil => nofun
  | cons d s =>
      rw [escapeItem_cons]
      split
      · simpa using hc.symm
      · simpa using h

theorem getLast?_escapeItem : (escapeItem escape x s).getLast? = s.getLast? := by
  induction s with
  | nil => rfl
  | cons c s ih =>
      have hlast : (if c = x then [escape, x] else [c]).getLast? = some c := by
        split
        · rename_i hc
          rw [hc]
          rfl
        · rfl
      rw [escapeItem_cons, List.getLast?_append, ih, hlast, List.getLast?_cons]
      cases s.getLast? <;> rfl

theorem unescapeItem_cons_of {c : α} (h : c = escape → s.head? ≠ some x) :
    unescapeItem escape x (c :: s) = c :: unescapeItem escape x s := by
  cases s with
  | nil => rfl
  | cons d s =>
      rw [unescapeItem, if_neg]
      rintro ⟨hc, rfl⟩
      exact h hc rfl

/-- Unescaping undoes escaping, also in front of a text that no escape of it reaches. -/
theorem unescapeItem_escapeItem_append (hx : x ≠ escape)
    (h : s.getLast? = some escape → t.head? ≠ some x) :
    unescapeItem escape x (escapeItem escape x s ++ t) = s ++ unescapeItem escape x t := by
  induction s with
  | nil => rfl
  | cons c s ih =>
      have hrest : s.getLast? = some escape → t.head? ≠ some x := by
        intro hlast
        apply h
        rw [List.getLast?_cons, hlast]
        rfl
      rw [escapeItem_cons]
      split
      · rename_i hc
        rw [List.append_assoc, List.cons_append, List.singleton_append, unescapeItem,
          if_pos ⟨rfl, rfl⟩, ih hrest, hc]
        rfl
      · have hhead : c = escape → (escapeItem escape x s ++ t).head? ≠ some x := by
          rintro rfl
          cases s with
          | nil => exact h rfl
          | cons d s =>
              rw [List.head?_append_of_ne_nil _ (escapeItem_ne_nil (List.cons_ne_nil d s))]
              exact head?_escapeItem_ne hx
        rw [List.append_assoc, List.singleton_append, unescapeItem_cons_of hhead, ih hrest]
        rfl

/-- Unescaping undoes escaping, whatever the text. -/
theorem unescapeItem_escapeItem (hx : x ≠ escape) (s : List α) :
    unescapeItem escape x (escapeItem escape x s) = s := by
  have hnil : unescapeItem escape x [] = [] := rfl
  have hback := @unescapeItem_escapeItem_append _ _ escape x s [] hx fun _ ↦ nofun
  rwa [List.append_nil, hnil, List.append_nil] at hback

theorem mem_unescapeItem {c : α} (hc : c ≠ escape) (h : c ∈ s) : c ∈ unescapeItem escape x s := by
  fun_induction unescapeItem escape x s with
  | case1 d e rest hpair ih =>
      obtain ⟨rfl, rfl⟩ := hpair
      rcases List.mem_cons.mp h with rfl | h
      · exact absurd rfl hc
      · rcases List.mem_cons.mp h with rfl | h
        · exact List.mem_cons_self
        · exact List.mem_cons_of_mem _ (ih h)
  | case2 d e rest hpair ih =>
      rcases List.mem_cons.mp h with rfl | h
      · exact List.mem_cons_self
      · exact List.mem_cons_of_mem _ (ih h)
  | case3 s hs => exact h

theorem length_unescapeItem_le (escape x : α) (s : List α) :
    (unescapeItem escape x s).length ≤ s.length := by
  fun_induction unescapeItem escape x s with
  | case1 c d rest hpair ih =>
      rw [List.length_cons, List.length_cons, List.length_cons]
      omega
  | case2 c d rest hpair ih =>
      rw [List.length_cons, List.length_cons]
      omega
  | case3 s hs => exact Nat.le_refl _

theorem of_mem_unescapeItem {c : α} (h : c ∈ unescapeItem escape x s) : c = x ∨ c ∈ s := by
  fun_induction unescapeItem escape x s with
  | case1 d e rest hpair ih =>
      rcases List.mem_cons.mp h with h | h
      · exact Or.inl h
      · rcases ih h with h | h
        · exact Or.inl h
        · exact Or.inr (List.mem_cons_of_mem _ (List.mem_cons_of_mem _ h))
  | case2 d e rest hpair ih =>
      rcases List.mem_cons.mp h with rfl | h
      · exact Or.inr List.mem_cons_self
      · rcases ih h with h | h
        · exact Or.inl h
        · exact Or.inr (List.mem_cons_of_mem _ h)
  | case3 s hs => exact Or.inr h

theorem escaped_escapeItem (hx : x ≠ escape) (prev : Option α) (s : List α) :
    Escaped escape x prev (escapeItem escape x s) := by
  induction s generalizing prev with
  | nil => trivial
  | cons c s ih =>
      rw [escapeItem_cons]
      split
      · exact ⟨fun h ↦ absurd h.symm hx, fun _ ↦ rfl, ih _⟩
      · rename_i hc
        exact ⟨fun h ↦ absurd h hc, ih _⟩

/-- Escaping another item leaves an escaped one escaped. -/
theorem Escaped.escapeItem (h : Escaped escape x prev s) (hx : x ≠ escape) (hxy : x ≠ y) :
    Escaped escape x prev (escapeItem escape y s) := by
  induction s generalizing prev with
  | nil => trivial
  | cons c s ih =>
      obtain ⟨hc, hs⟩ := h
      rw [escapeItem_cons]
      split
      · rename_i heq
        subst heq
        exact ⟨fun h ↦ absurd h.symm hx, fun h ↦ absurd h.symm hxy, ih hs⟩
      · exact ⟨hc, ih hs⟩

end Escape

/-! ## Open quotes -/

variable [DecidableEq α] {quote escape sep : α} {prev prev' : Option α} {q q' : Bool}
  {s t : List α}

/-- Whether a quote is open behind the item. -/
def toggled (quote escape : α) (prev : Option α) (c : α) (inQuote : Bool) : Bool :=
  if c = quote ∧ prev ≠ some escape then !inQuote else inQuote

/-- Whether a quote is open behind the text. -/
def quoteAfter (quote escape : α) : Option α → Bool → List α → Bool
  | _, inQuote, [] => inQuote
  | prev, inQuote, c :: s =>
      quoteAfter quote escape (some c) (toggled quote escape prev c inQuote) s

/-- The same, for a text that has every separator in quotes. -/
def scanQuotes (quote escape sep : α) : Option α → Bool → List α → Option Bool
  | _, inQuote, [] => some inQuote
  | prev, inQuote, c :: s =>
      if c = sep ∧ inQuote = false then none
      else scanQuotes quote escape sep (some c) (toggled quote escape prev c inQuote) s

theorem toggled_of_ne {c : α} (h : c ≠ quote) (prev : Option α) (q : Bool) :
    toggled quote escape prev c q = q := if_neg fun hc ↦ h hc.1

theorem toggled_of_escaped {c : α} (h : c = quote → prev = some escape) (q : Bool) :
    toggled quote escape prev c q = q := if_neg fun hc ↦ hc.2 (h hc.1)

theorem toggled_not (prev : Option α) (c : α) (q : Bool) :
    toggled quote escape prev c (!q) = !toggled quote escape prev c q := by
  unfold toggled
  split <;> simp

theorem toggled_congr (h : prev = some escape ↔ prev' = some escape) (c : α) (q : Bool) :
    toggled quote escape prev c q = toggled quote escape prev' c q := by
  simp only [toggled, ne_eq, h]

theorem quoteAfter_append (prev : Option α) (q : Bool) (s t : List α) :
    quoteAfter quote escape prev q (s ++ t) =
      quoteAfter quote escape (lastRead prev s) (quoteAfter quote escape prev q s) t := by
  induction s generalizing prev q with
  | nil => rfl
  | cons c s ih => exact ih (some c) (toggled quote escape prev c q)

theorem quoteAfter_not (prev : Option α) (q : Bool) (s : List α) :
    quoteAfter quote escape prev (!q) s = !quoteAfter quote escape prev q s := by
  induction s generalizing prev q with
  | nil => rfl
  | cons c s ih =>
      rw [quoteAfter, quoteAfter, toggled_not]
      exact ih (some c) (toggled quote escape prev c q)

theorem quoteAfter_of_escaped (h : Escaped escape quote prev s) (q : Bool) :
    quoteAfter quote escape prev q s = q := by
  induction s generalizing prev with
  | nil => rfl
  | cons c s ih =>
      rw [quoteAfter, toggled_of_escaped h.1]
      exact ih h.2

theorem quoteAfter_of_notMem (h : quote ∉ s) (prev : Option α) (q : Bool) :
    quoteAfter quote escape prev q s = q := quoteAfter_of_escaped (escaped_of_notMem h prev) q

theorem quoteAfter_congr (h : prev = some escape ↔ prev' = some escape) (q : Bool) (s : List α) :
    quoteAfter quote escape prev q s = quoteAfter quote escape prev' q s := by
  cases s with
  | nil => rfl
  | cons c s => rw [quoteAfter, quoteAfter, toggled_congr h]

theorem quoteAfter_none (hprev : prev ≠ some escape) (q : Bool) (s : List α) :
    quoteAfter quote escape prev q s = quoteAfter quote escape none q s :=
  quoteAfter_congr (by simp [hprev]) q s

theorem quoteAfter_of_closed (h : quoteAfter quote escape none false s = false)
    (hprev : prev ≠ some escape) (q : Bool) : quoteAfter quote escape prev q s = q := by
  rw [quoteAfter_none hprev]
  cases q with
  | false => exact h
  | true => rw [← Bool.not_false, quoteAfter_not, h]

/-! ## Separators in quotes -/

theorem scanQuotes_append (sep : α) (prev : Option α) (q : Bool) (s t : List α) :
    scanQuotes quote escape sep prev q (s ++ t) =
      (scanQuotes quote escape sep prev q s).bind fun q' ↦
        scanQuotes quote escape sep (lastRead prev s) q' t := by
  induction s generalizing prev q with
  | nil => rfl
  | cons c s ih =>
      rw [List.cons_append, scanQuotes, scanQuotes]
      split
      · rfl
      · exact ih (some c) (toggled quote escape prev c q)

theorem scanQuotes_none (hprev : prev ≠ some escape) (sep : α) (q : Bool) (s : List α) :
    scanQuotes quote escape sep prev q s = scanQuotes quote escape sep none q s := by
  cases s with
  | nil => rfl
  | cons c s =>
      have htoggled := @toggled_congr _ _ quote escape prev none (by simp [hprev]) c q
      rw [scanQuotes, scanQuotes, htoggled]

theorem scanQuotes_cons_of_ne {c : α} (hsep : c ≠ sep) (hquote : c ≠ quote) (prev : Option α)
    (q : Bool) (s : List α) :
    scanQuotes quote escape sep prev q (c :: s) = scanQuotes quote escape sep (some c) q s := by
  rw [scanQuotes, if_neg fun h ↦ hsep h.1, toggled_of_ne hquote]

theorem quoteAfter_of_scanQuotes (h : scanQuotes quote escape sep prev q s = some q') :
    quoteAfter quote escape prev q s = q' := by
  induction s generalizing prev q with
  | nil => exact Option.some.inj h
  | cons c s ih =>
      rw [scanQuotes] at h
      split at h
      · cases h
      · exact ih h

theorem scanQuotes_of_notMem (h : sep ∉ s) (prev : Option α) (q : Bool) :
    scanQuotes quote escape sep prev q s = some (quoteAfter quote escape prev q s) := by
  induction s generalizing prev q with
  | nil => rfl
  | cons c s ih =>
      obtain ⟨hc, hs⟩ : sep ≠ c ∧ sep ∉ s := by simpa using h
      rw [scanQuotes, if_neg fun hsep ↦ hc hsep.1.symm]
      exact ih hs (some c) (toggled quote escape prev c q)

theorem scanQuotes_prefix_eq (h : scanQuotes quote escape sep prev q (s ++ t) = some q') :
    scanQuotes quote escape sep prev q s = some (quoteAfter quote escape prev q s) := by
  rw [scanQuotes_append] at h
  cases hs : scanQuotes quote escape sep prev q s with
  | none =>
      rw [hs] at h
      cases h
  | some q'' => rw [quoteAfter_of_scanQuotes hs]

theorem scanQuotes_true_of_escaped (h : Escaped escape quote prev s) :
    scanQuotes quote escape sep prev true s = some true := by
  induction s generalizing prev with
  | nil => rfl
  | cons c s ih =>
      rw [scanQuotes, if_neg (by simp), toggled_of_escaped h.1]
      exact ih h.2

theorem scanQuotes_false_of_mem (h : Escaped escape quote prev s) (hsep : sep ∈ s) :
    scanQuotes quote escape sep prev false s = none := by
  induction s generalizing prev with
  | nil => cases hsep
  | cons c s ih =>
      rw [scanQuotes]
      split
      · rfl
      · rename_i hc
        rw [toggled_of_escaped h.1]
        apply ih h.2
        rcases List.mem_cons.mp hsep with rfl | hmem
        · exact absurd ⟨rfl, rfl⟩ hc
        · exact hmem

/-! ## Quotes around an escaped text -/

/-- The last quote does not count if an escape stands in front of it. -/
theorem quoteAfter_wrapped (h : Escaped escape quote (some quote) s) (hne : quote ≠ escape)
    (hprev : prev ≠ some escape) (q : Bool) :
    quoteAfter quote escape prev q (quote :: s ++ [quote]) =
      if s.getLast? = some escape then !q else q := by
  have hopen : toggled quote escape prev quote q = !q := if_pos ⟨rfl, hprev⟩
  rw [List.cons_append, quoteAfter, hopen, quoteAfter_append, quoteAfter_of_escaped h, quoteAfter,
    quoteAfter, toggled]
  cases hs : s with
  | nil => simp [hne]
  | cons c t =>
      rw [← hs, lastRead_eq_getLast? _ (by simp [hs])]
      by_cases hlast : s.getLast? = some escape
      · simp [hlast]
      · simp [hlast]

theorem scanQuotes_wrapped (h : Escaped escape quote (some quote) s) (hne : quote ≠ escape)
    (hprev : prev ≠ some escape) (hsep : sep ≠ quote) (hmem : sep ∈ s) (q : Bool) :
    scanQuotes quote escape sep prev q (quote :: s ++ [quote]) =
      if q then none else some (decide (s.getLast? = some escape)) := by
  have hopen : toggled quote escape prev quote q = !q := if_pos ⟨rfl, hprev⟩
  rw [List.cons_append, scanQuotes, if_neg fun hq ↦ hsep hq.1.symm, hopen, scanQuotes_append]
  cases q with
  | true =>
      rw [Bool.not_true, scanQuotes_false_of_mem h hmem]
      rfl
  | false =>
      have hquote := quoteAfter_wrapped h hne hprev false
      rw [List.cons_append, quoteAfter, hopen, quoteAfter_append, quoteAfter_of_escaped h] at hquote
      rw [Bool.not_false, scanQuotes_true_of_escaped h, Option.bind_some,
        scanQuotes_of_notMem (by simpa using hsep), ← Bool.not_false, hquote]
      by_cases hlast : s.getLast? = some escape <;> simp [hlast]

/-! ## Tokens -/

/-- Scan a token from its start.  A separator in front does not end it. -/
def scanToken (quote escape sep : α) : List α → Option Bool
  | [] => some false
  | c :: s => scanQuotes quote escape sep (some c) (toggled quote escape none c false) s

theorem scanToken_eq (h : s.head? ≠ some sep) :
    scanToken quote escape sep s = scanQuotes quote escape sep none false s := by
  cases s with
  | nil => rfl
  | cons c s =>
      have hc : c ≠ sep := by simpa using h
      rw [scanToken, scanQuotes, if_neg fun hsep ↦ hc hsep.1]

theorem quoteAfter_of_scanToken (h : scanToken quote escape sep s = some q) :
    quoteAfter quote escape none false s = q := by
  cases s with
  | nil => exact Option.some.inj h
  | cons c s =>
      rw [scanToken] at h
      rw [quoteAfter]
      exact quoteAfter_of_scanQuotes h

theorem scanToken_append (hs : s ≠ []) :
    scanToken quote escape sep (s ++ t) =
      (scanToken quote escape sep s).bind fun q ↦
        scanQuotes quote escape sep (lastRead none s) q t := by
  cases s with
  | nil => exact absurd rfl hs
  | cons c s => exact scanQuotes_append sep (some c) _ s t

theorem scanToken_prefix_eq (h : scanToken quote escape sep (s ++ t) = some q) :
    scanToken quote escape sep s = some (quoteAfter quote escape none false s) := by
  cases s with
  | nil => rfl
  | cons c s => exact scanQuotes_prefix_eq h

/-! ## Joined texts -/

/-- Texts that close their quotes close them together. -/
theorem quoteAfter_intercalate {tokens : List (List α)} (hquote : sep ≠ quote)
    (hescape : sep ≠ escape) (h : ∀ t ∈ tokens, quoteAfter quote escape none false t = false)
    (hprev : prev ≠ some escape) (q : Bool) :
    quoteAfter quote escape prev q ([sep].intercalate tokens) = q := by
  induction tokens generalizing prev with
  | nil => rfl
  | cons t tokens ih =>
      have ht := quoteAfter_of_closed (h t List.mem_cons_self) hprev q
      by_cases htokens : tokens = []
      · subst htokens
        rwa [List.intercalate_singleton]
      · rw [List.intercalate_cons_of_ne_nil htokens, List.append_assoc, quoteAfter_append, ht,
          List.singleton_append, quoteAfter, toggled_of_ne hquote]
        apply ih
        · exact fun u hu ↦ h u (List.mem_cons_of_mem _ hu)
        · simpa using hescape

theorem quoteAfter_intercalate_cons {tokens : List (List α)} (hquote : sep ≠ quote)
    (hescape : sep ≠ escape) (h : ∀ t ∈ tokens, quoteAfter quote escape none false t = false)
    (t : List α) :
    quoteAfter quote escape prev q ([sep].intercalate (t :: tokens)) =
      quoteAfter quote escape prev q t := by
  by_cases htokens : tokens = []
  · subst htokens
    rw [List.intercalate_singleton]
  · rw [List.intercalate_cons_of_ne_nil htokens, List.append_assoc, quoteAfter_append,
      List.singleton_append, quoteAfter, toggled_of_ne hquote]
    exact quoteAfter_intercalate hquote hescape h (by simpa using hescape) _

end Quoting
