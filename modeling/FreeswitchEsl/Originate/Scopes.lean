import FreeswitchEsl.Originate.DialString
import Mathlib.Data.Bool.AllAny

/-!
# Endpoints with variables of every scope

The variables of every scope are written in front of the endpoint.  The reader looks for
braces only, and for the first brace that closes.
-/

namespace FreeswitchEsl

open Quoting Text

namespace Endpoint

/-- The variables of the endpoint. -/
def vars : Endpoint → Option Variables
  | generic _ vars | loopback _ _ vars | sofiaGateway _ _ _ vars => vars

/-- The endpoint without its variables. -/
def bare : Endpoint → Endpoint
  | generic uri _ => generic uri none
  | loopback uri context _ => loopback uri context none
  | sofiaGateway uri profile gateway _ => sofiaGateway uri profile gateway none

/-- The texts that the URI is made of. -/
def uriParts : Endpoint → List Str
  | generic uri _ => [uri]
  | loopback uri context _ => [uri, context]
  | sofiaGateway uri profile gateway _ => profile.toList ++ [gateway, uri]

/-- A text without whitespace and without brackets of any kind. -/
def UriPart (s : Str) : Prop :=
  s ≠ [] ∧ ∀ c ∈ s, isWhitespace c = false ∧ c ∉ "\x7b\x7d[]<>()".toList

instance (s : Str) : Decidable (UriPart s) :=
  decidable_of_iff
    (s ≠ [] ∧ s.all (fun c ↦ isWhitespace c = false ∧ c ∉ "\x7b\x7d[]<>()".toList) = true)
    (by simp [UriPart])

/-- Variables of any scope: keys without syntax, and any values without backslashes. -/
structure PlainVars (v : Variables) : Prop where
  ne_nil : v.inner ≠ []
  key : ∀ p ∈ v.inner, ∀ c ∈ p.1, c ∉ "=,\x7b\x7d[]<>()".toList
  value : ∀ p ∈ v.inner, '\\' ∉ p.2

section Bare

variable {e : Endpoint} {c : Char}

theorem display_eq (e : Endpoint) : e.display = writeVariables e.vars ++ e.bare.display := by
  cases e with
  | generic uri v => rfl
  | loopback uri context v =>
      simp only [display, bare, Endpoint.vars, List.append_assoc]
      rfl
  | sofiaGateway uri profile gateway v =>
      cases profile with
      | none =>
          simp only [display, bare, Endpoint.vars, List.append_assoc]
          rfl
      | some profile =>
          simp only [display, bare, Endpoint.vars, List.append_assoc]
          rfl

/-- Neither whitespace nor a brace is in the text behind the variables. -/
theorem plain_of_mem_display_bare (h : ∀ part ∈ e.uriParts, UriPart part) :
    ∀ c ∈ e.bare.display, isWhitespace c = false ∧ c ≠ '{' := by
  have hpart : ∀ part ∈ e.uriParts, ∀ c ∈ part, isWhitespace c = false ∧ c ≠ '{' := by
    intro part hpart c hc
    obtain ⟨hspace, hbracket⟩ := (h part hpart).2 c hc
    refine ⟨hspace, ?_⟩
    rintro rfl
    exact hbracket (by decide)
  have hliteral : ∀ {literal : Str},
      (literal.all fun c ↦ isWhitespace c = false ∧ c ≠ '{') = true →
        ∀ c ∈ literal, isWhitespace c = false ∧ c ≠ '{' :=
    List.all_iff_forall_prop.mp
  have hslash : isWhitespace '/' = false ∧ '/' ≠ '{' := by decide
  cases e with
  | generic uri v => exact hpart uri (by simp [uriParts])
  | loopback uri context v =>
      change ∀ c ∈ "loopback/".toList ++ uri ++ '/' :: context, _
      rw [List.forall_mem_append, List.forall_mem_append, List.forall_mem_cons]
      refine ⟨⟨hliteral (by decide), ?_⟩, hslash, ?_⟩
      · exact hpart uri (by simp [uriParts])
      · exact hpart context (by simp [uriParts])
  | sofiaGateway uri profile gateway v =>
      cases profile with
      | none =>
          change ∀ c ∈ "sofia/gateway/".toList ++ gateway ++ '/' :: uri, _
          rw [List.forall_mem_append, List.forall_mem_append, List.forall_mem_cons]
          refine ⟨⟨hliteral (by decide), ?_⟩, hslash, ?_⟩
          · exact hpart gateway (by simp [uriParts])
          · exact hpart uri (by simp [uriParts])
      | some profile =>
          change ∀ c ∈ "sofia/gateway/".toList ++ profile ++ "::".toList ++ gateway ++
            '/' :: uri, _
          rw [List.forall_mem_append, List.forall_mem_append, List.forall_mem_append,
            List.forall_mem_append, List.forall_mem_cons]
          refine ⟨⟨⟨⟨hliteral (by decide), ?_⟩, hliteral (by decide)⟩, ?_⟩, hslash, ?_⟩
          · exact hpart profile (by simp [uriParts])
          · exact hpart gateway (by simp [uriParts])
          · exact hpart uri (by simp [uriParts])

end Bare

section Scopes

variable {e : Endpoint} {v : Variables}

/-- Variables in braces, without a brace in them, can be read. -/
theorem PlainVars.readable (h : PlainVars v) (htype : v.varsType = .default)
    (hvalue : ∀ p ∈ v.inner, '}' ∉ p.2) : v.Readable := by
  have hkey : ∀ p ∈ v.inner, ∀ c ∈ "=,\x7b\x7d[]<>()".toList, c ∉ p.1 :=
    fun p hp c hc hmem ↦ h.key p hp c hmem hc
  refine ⟨htype, h.ne_nil, fun p hp ↦ ⟨?_, ?_, ?_⟩, hvalue⟩
  · exact hkey p hp '=' (by decide)
  · exact hkey p hp '}' (by decide)
  · exact escaped_of_notMem (hkey p hp ',' (by decide)) none

theorem PlainVars.stable (h : PlainVars v) : v.Stable := by
  rintro p hp ⟨hlast, -⟩
  exact h.value p (List.mem_of_mem_dropLast hp) (List.mem_of_getLast? hlast)

/-- An endpoint is read with the variables it was written with exactly when they are in
braces and no value has a closing brace. -/
theorem fromStr_display_iff_braces (huri : ∀ part ∈ e.uriParts, UriPart part)
    (hvars : ∀ v, e.vars = some v → PlainVars v) :
    fromStr e.display = .ok (generic e.bare.display e.vars) ↔
      ∀ v, e.vars = some v → v.varsType = .default ∧ ∀ p ∈ v.inner, '}' ∉ p.2 := by
  rw [display_eq]
  cases hv : e.vars with
  | none =>
      have hbrace : '{' ∉ writeVariables none ++ e.bare.display := by
        intro hmem
        exact (plain_of_mem_display_bare huri _ hmem).2 rfl
      rw [fromStr, if_neg hbrace]
      refine iff_of_true rfl fun v hv ↦ ?_
      cases hv
  | some v =>
      have hplain := hvars v hv
      have hempty : v.isEmpty = false := by simpa [Variables.isEmpty] using hplain.ne_nil
      have hwrite : writeVariables (some v) = v.display := by
        rw [writeVariables, hempty]
        rfl
      rw [hwrite]
      constructor
      · intro h w hw
        obtain rfl := Option.some.inj hw
        rcases of_fromStr h with ⟨-, hnone⟩ | ⟨w, uri, block, rest, heq, hreadable, -⟩
        · cases (generic.inj hnone).2
        · obtain rfl := Option.some.inj (generic.inj heq).2
          exact ⟨hreadable.varsType, hreadable.value⟩
      · intro h
        obtain ⟨htype, hvalue⟩ := h v rfl
        have hreadable := hplain.readable htype hvalue
        have htrimmed : Trimmed e.bare.display :=
          trimmed_of_forall fun c hc ↦ (plain_of_mem_display_bare huri c hc).1
        rw [fromStr_dialString_iff hreadable htrimmed, hreadable.fromStr_display_iff]
        exact hplain.stable

/-- A loopback leg with one variable. -/
def loopbackWith (varsType : VariablesType) (value : Str) : Endpoint :=
  loopback "9199".toList "test".toList
    (some ⟨varsType, [("a".toList, value)], by simp⟩)

theorem plainVars_loopbackWith {varsType : VariablesType} {value : Str} (h : '\\' ∉ value) :
    ∀ v, (loopbackWith varsType value).vars = some v → PlainVars v := by
  intro v hv
  obtain rfl := Option.some.inj hv
  refine ⟨List.cons_ne_nil _ _, ?_, ?_⟩
  · intro p hp
    obtain rfl := List.mem_singleton.mp hp
    have hname : ("a".toList.all fun c ↦ c ∉ "=,\x7b\x7d[]<>()".toList) = true := by decide
    exact List.all_iff_forall_prop.mp hname
  · intro p hp
    obtain rfl := List.mem_singleton.mp hp
    exact h

theorem fromStr_display_iff_braces_loopback :
    fromStr (loopbackWith .default "b".toList).display =
        .ok (generic (loopbackWith .default "b".toList).bare.display
          (loopbackWith .default "b".toList).vars) ↔
      ∀ v, (loopbackWith .default "b".toList).vars = some v →
        v.varsType = .default ∧ ∀ p ∈ v.inner, '}' ∉ p.2 :=
  fromStr_display_iff_braces (by decide) (plainVars_loopbackWith (by decide))

theorem not_fromStr_display_channel :
    ¬ ∀ e : Endpoint, (∀ part ∈ e.uriParts, UriPart part) →
      (∀ v, e.vars = some v → PlainVars v) →
        fromStr e.display = .ok (generic e.bare.display e.vars) := by
  intro h
  have hread : (fromStr (loopbackWith .channel "b".toList).display).toOption.bind vars = none := by
    decide +kernel
  rw [h _ (by decide) (plainVars_loopbackWith (by decide))] at hread
  cases hread

end Scopes

end Endpoint

end FreeswitchEsl
