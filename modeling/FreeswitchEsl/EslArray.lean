import FreeswitchEsl.Event
import FreeswitchEsl.Lib.Pattern

/-!
# Arrays in header values

A header can hold several values: a prefix, then the values with a separator between them.
Values are pushed and unshifted by reading the text and writing it again.
-/

namespace FreeswitchEsl

open Text

def ARRAY_HEADER : Str := "ARRAY::".toList

def ARRAY_SEPARATOR : Str := "|:".toList

structure EslArray where
  items : List Str
  deriving DecidableEq

namespace EslArray

def parse (s : Str) : Option EslArray :=
  (stripPrefix ARRAY_HEADER s).map fun body ↦ ⟨Pattern.split ARRAY_SEPARATOR body⟩

def new (items : List Str) : EslArray := ⟨items⟩

def push (a : EslArray) (value : Str) : EslArray := ⟨a.items ++ [value]⟩

def unshift (a : EslArray) (value : Str) : EslArray := ⟨value :: a.items⟩

def display (a : EslArray) : Str := ARRAY_HEADER ++ ARRAY_SEPARATOR.intercalate a.items

/-! ## Reading and writing -/

variable {a : EslArray} {s : Str} {items : List Str}

theorem display_of_parse (h : parse s = some a) : a.display = s := by
  obtain ⟨body, hbody, rfl⟩ := Option.map_eq_some_iff.mp h
  rw [display, Pattern.intercalate_split]
  exact (stripPrefix_eq_some hbody).symm

/-- The separator does not begin with the character that it ends with. -/
theorem parse_display_new (hne : items ≠ []) (h : ∀ item ∈ items, ¬ ARRAY_SEPARATOR <:+: item) :
    parse (new items).display = some (new items) := by
  rw [parse, display, stripPrefix_append, Option.map_some, new]
  rw [Pattern.split_intercalate (by decide) (by decide) hne h]

/-- Reading and writing an array undo each other, in either order. -/
theorem parse_display_inverse :
    (∀ s a, parse s = some a → a.display = s) ∧
      ∀ items, items ≠ [] → (∀ item ∈ items, ¬ ARRAY_SEPARATOR <:+: item) →
        parse (new items).display = some (new items) :=
  ⟨fun _ _ h ↦ display_of_parse h, fun _ hne h ↦ parse_display_new hne h⟩

theorem parse_display_inverse_edges :
    parse (new ["a|".toList, [], ":b".toList]).display =
      some (new ["a|".toList, [], ":b".toList]) :=
  parse_display_inverse.2 _ (List.cons_ne_nil _ _) (by decide)

theorem parse_eq_none (h : ¬ ARRAY_HEADER <+: s) : parse s = none := by
  cases hs : stripPrefix ARRAY_HEADER s with
  | none => rw [parse, hs, Option.map_none]
  | some body => exact absurd ⟨body, (stripPrefix_eq_some hs).symm⟩ h

end EslArray

/-! ## Multi-value headers -/

namespace EslEvent

def stackHeader (e : EslEvent) (name value : Str) (op : EslArray → Str → EslArray) : EslEvent :=
  match e.header name with
  | none => e.setHeader name value
  | some existing =>
      let arr := match EslArray.parse existing with
        | some arr => arr
        | none => EslArray.new [existing]
      e.setHeader name (op arr value).display

def pushHeader (e : EslEvent) (name value : Str) : EslEvent :=
  e.stackHeader name value EslArray.push

def unshiftHeader (e : EslEvent) (name value : Str) : EslEvent :=
  e.stackHeader name value EslArray.unshift

end EslEvent

inductive StackOp where
  | push (value : Str)
  | unshift (value : Str)

namespace StackOp

def value : StackOp → Str
  | push value => value
  | unshift value => value

/-- The operation on an event. -/
def apply (name : Str) (e : EslEvent) : StackOp → EslEvent
  | push value => e.pushHeader name value
  | unshift value => e.unshiftHeader name value

/-- The operation on a deque. -/
def onDeque (deque : List Str) : StackOp → List Str
  | push value => deque ++ [value]
  | unshift value => value :: deque

end StackOp

/-- The text stands for the values: one value for itself, or an array. -/
def Decodes (text : Str) (values : List Str) : Prop :=
  (EslArray.parse text).getD (EslArray.new [text]) = EslArray.new values

section Stack

variable {e : EslEvent} {name text : Str} {deque : List Str} {op : StackOp} {ops : List StackOp}

theorem StackOp.onDeque_ne_nil : op.onDeque deque ≠ [] := by
  cases op with
  | push value => exact List.append_ne_nil_of_right_ne_nil _ (List.cons_ne_nil _ _)
  | unshift value => exact List.cons_ne_nil _ _

theorem StackOp.mem_onDeque {v : Str} : v ∈ op.onDeque deque ↔ v = op.value ∨ v ∈ deque := by
  cases op with
  | push value => simp [onDeque, StackOp.value, or_comm]
  | unshift value => exact List.mem_cons

theorem StackOp.apply_of_none (h : e.header name = none) :
    op.apply name e = e.setHeader name op.value := by
  cases op with
  | push value => simp only [apply, EslEvent.pushHeader, EslEvent.stackHeader, h, StackOp.value]
  | unshift value =>
      simp only [apply, EslEvent.unshiftHeader, EslEvent.stackHeader, h, StackOp.value]

/-- On a header that is there, the operation is done on what the header stands for. -/
theorem StackOp.apply_of_decodes (h : e.header name = some text) (htext : Decodes text deque) :
    op.apply name e = e.setHeader name (EslArray.new (op.onDeque deque)).display := by
  have harr : (match EslArray.parse text with
      | some arr => arr
      | none => EslArray.new [text]) = EslArray.new deque := by
    rw [← htext]
    cases EslArray.parse text <;> rfl
  cases op with
  | push value =>
      simp only [apply, EslEvent.pushHeader, EslEvent.stackHeader, h]
      rw [harr]
      rfl
  | unshift value =>
      simp only [apply, EslEvent.unshiftHeader, EslEvent.stackHeader, h]
      rw [harr]
      rfl

theorem decodes_self (h : ¬ ARRAY_HEADER <+: text) : Decodes text [text] := by
  rw [Decodes, EslArray.parse_eq_none h, Option.getD_none]

theorem decodes_display (hne : deque ≠ []) (h : ∀ v ∈ deque, ¬ ARRAY_SEPARATOR <:+: v) :
    Decodes (EslArray.new deque).display deque := by
  rw [Decodes, EslArray.parse_display_new hne h, Option.getD_some]

theorem not_infix_of_mem_onDeque (hdeque : ∀ v ∈ deque, ¬ ARRAY_SEPARATOR <:+: v)
    (hop : ¬ ARRAY_SEPARATOR <:+: op.value) : ∀ v ∈ op.onDeque deque, ¬ ARRAY_SEPARATOR <:+: v := by
  intro v hv
  rcases StackOp.mem_onDeque.mp hv with rfl | hv
  · exact hop
  · exact hdeque v hv

/-- Every operation on a header that is there leaves the array of the deque. -/
theorem header_foldl_apply (hne : ops ≠ []) (hheader : e.header name = some text)
    (htext : Decodes text deque) (hdeque : ∀ v ∈ deque, ¬ ARRAY_SEPARATOR <:+: v)
    (hops : ∀ op ∈ ops, ¬ ARRAY_SEPARATOR <:+: op.value) :
    (ops.foldl (StackOp.apply name) e).header name =
        some (EslArray.new (ops.foldl StackOp.onDeque deque)).display ∧
      EslArray.parse (EslArray.new (ops.foldl StackOp.onDeque deque)).display =
        some (EslArray.new (ops.foldl StackOp.onDeque deque)) := by
  induction ops generalizing e text deque with
  | nil => exact absurd rfl hne
  | cons op ops ih =>
      have happly : op.apply name e = _ := StackOp.apply_of_decodes hheader htext
      have hclean := not_infix_of_mem_onDeque hdeque (hops op List.mem_cons_self)
      have hnext : (op.apply name e).header name =
          some (EslArray.new (op.onDeque deque)).display := by
        rw [happly, EslEvent.header_setHeader_self]
      rw [List.foldl_cons, List.foldl_cons]
      by_cases hrest : ops = []
      · subst hrest
        exact ⟨hnext, EslArray.parse_display_new StackOp.onDeque_ne_nil hclean⟩
      · exact ih hrest hnext (decodes_display StackOp.onDeque_ne_nil hclean) hclean
          fun op' hop' ↦ hops op' (List.mem_cons_of_mem _ hop')

theorem StackOp.exists_setHeader (op : StackOp) (name : Str) (e : EslEvent) :
    ∃ text, op.apply name e = e.setHeader name text := by
  cases op with
  | push value =>
      simp only [apply, EslEvent.pushHeader, EslEvent.stackHeader]
      split
      · exact ⟨_, rfl⟩
      · exact ⟨_, rfl⟩
  | unshift value =>
      simp only [apply, EslEvent.unshiftHeader, EslEvent.stackHeader]
      split
      · exact ⟨_, rfl⟩
      · exact ⟨_, rfl⟩

/-- Nothing but the header itself changes. -/
theorem frame_foldl_apply (name : Str) (e : EslEvent) (ops : List StackOp) :
    (∀ other, other ≠ name →
      (ops.foldl (StackOp.apply name) e).header other = e.header other) ∧
    (ops.foldl (StackOp.apply name) e).body = e.body ∧
    (ops.foldl (StackOp.apply name) e).eventType = e.eventType := by
  induction ops generalizing e with
  | nil => exact ⟨fun _ _ ↦ rfl, rfl, rfl⟩
  | cons op ops ih =>
      obtain ⟨text, htext⟩ := op.exists_setHeader name e
      obtain ⟨hother, hbody, htype⟩ := ih (op.apply name e)
      rw [List.foldl_cons]
      rw [htext] at hother hbody htype ⊢
      refine ⟨fun other hne ↦ ?_, hbody, htype⟩
      rw [hother other hne, EslEvent.header_setHeader_of_ne e text hne]

/-- A header that is pushed to and unshifted to holds the deque of the values. -/
theorem header_deque {first : StackOp} (hnone : e.header name = none)
    (hfirst : ¬ ARRAY_HEADER <+: first.value)
    (hvalues : ∀ op ∈ first :: ops, ¬ ARRAY_SEPARATOR <:+: op.value) :
    (ops = [] →
      ((first :: ops).foldl (StackOp.apply name) e).header name = some first.value ∧
      (first :: ops).foldl StackOp.onDeque [] = [first.value]) ∧
    (ops ≠ [] → ∃ text arr,
      ((first :: ops).foldl (StackOp.apply name) e).header name = some text ∧
      EslArray.parse text = some arr ∧
      arr.items = (first :: ops).foldl StackOp.onDeque []) ∧
    (∀ other, other ≠ name →
      ((first :: ops).foldl (StackOp.apply name) e).header other = e.header other) ∧
    ((first :: ops).foldl (StackOp.apply name) e).body = e.body ∧
    ((first :: ops).foldl (StackOp.apply name) e).eventType = e.eventType := by
  have hplain : (first.apply name e).header name = some first.value := by
    rw [StackOp.apply_of_none hnone, EslEvent.header_setHeader_self]
  have hone : first.onDeque [] = [first.value] := by
    cases first with
    | push value => rfl
    | unshift value => rfl
  refine ⟨?_, ?_, frame_foldl_apply name e (first :: ops)⟩
  · rintro rfl
    exact ⟨hplain, hone⟩
  · intro hne
    have hdeque : ∀ v ∈ [first.value], ¬ ARRAY_SEPARATOR <:+: v := by
      intro v hv
      rw [List.mem_singleton.mp hv]
      exact hvalues first List.mem_cons_self
    obtain ⟨hheader, hparse⟩ := header_foldl_apply hne hplain (decodes_self hfirst) hdeque
      fun op hop ↦ hvalues op (List.mem_cons_of_mem _ hop)
    rw [List.foldl_cons, List.foldl_cons, hone]
    exact ⟨_, _, hheader, hparse, rfl⟩

end Stack

/-- Two values in front of one, with the separator's characters at their edges. -/
def edgeOps : List StackOp := [.unshift ":b".toList, .unshift "a|".toList]

theorem header_deque_edges :
    ∃ text arr,
      ((.push [] :: edgeOps).foldl (StackOp.apply "X-Test".toList) EslEvent.new).header
        "X-Test".toList = some text ∧
      EslArray.parse text = some arr ∧ arr.items = ["a|".toList, ":b".toList, []] :=
  (@header_deque EslEvent.new "X-Test".toList edgeOps (.push []) rfl (by decide) (by decide)).2.1
    (List.cons_ne_nil _ _)

end FreeswitchEsl
