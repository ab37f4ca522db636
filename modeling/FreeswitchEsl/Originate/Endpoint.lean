import FreeswitchEsl.Originate.Tokens

/-!
# Channel variables and endpoints

The dial target of an originate command, with a block of channel variables in
front of it.
-/

namespace FreeswitchEsl

open Text

/-! ## Channel variables -/

inductive VariablesType where
  | enterprise
  | default
  | channel
  deriving DecidableEq

def VariablesType.delimiters : VariablesType → Char × Char
  | .enterprise => ('<', '>')
  | .default => ('{', '}')
  | .channel => ('[', ']')

/-- `IndexMap::insert`: an existing key keeps its place. -/
def indexInsert (key value : Str) : List (Str × Str) → List (Str × Str)
  | [] => [(key, value)]
  | p :: rest => if p.1 = key then (key, value) :: rest else p :: indexInsert key value rest

theorem mem_map_fst_indexInsert {key value k : Str} {l : List (Str × Str)} :
    k ∈ (indexInsert key value l).map Prod.fst ↔ k = key ∨ k ∈ l.map Prod.fst := by
  induction l with
  | nil => simp [indexInsert]
  | cons p l ih =>
      rw [indexInsert]
      split
      · rename_i h
        simp [h]
      · rw [List.map_cons, List.mem_cons, ih, List.map_cons, List.mem_cons]
        exact or_left_comm

theorem nodup_indexInsert {key value : Str} {l : List (Str × Str)} (h : (l.map Prod.fst).Nodup) :
    ((indexInsert key value l).map Prod.fst).Nodup := by
  induction l with
  | nil => simp [indexInsert]
  | cons p l ih =>
      obtain ⟨hp, hl⟩ := List.nodup_cons.mp h
      rw [indexInsert]
      split
      · rename_i heq
        rw [List.map_cons, ← heq]
        exact List.nodup_cons.mpr ⟨hp, hl⟩
      · rename_i hne
        rw [List.map_cons]
        refine List.nodup_cons.mpr ⟨?_, ih hl⟩
        rw [mem_map_fst_indexInsert]
        exact not_or.mpr ⟨hne, hp⟩

structure Variables where
  varsType : VariablesType
  inner : List (Str × Str)
  nodup : (inner.map Prod.fst).Nodup
  deriving DecidableEq

def escapeValue (value : Str) : Str :=
  let escaped := replaceChar ',' ['\\', ','] (replaceChar '\'' ['\\', '\''] value)
  if ' ' ∈ escaped then '\'' :: escaped ++ ['\''] else escaped

def unescapeValue (value : Str) : Str :=
  let s := ((stripPrefix ['\''] value).bind (stripSuffix ['\''])).getD value
  replacePair '\\' '\'' '\'' (replacePair '\\' ',' ',' s)

/-- The loop of `split_unescaped_commas`; `prev` is the character before the next
one and `part` what was read since the last split. -/
def splitUnescapedCommas : Option Char → Str → Str → List Str
  | _, part, [] => [part]
  | prev, part, c :: rest =>
      if c = ',' ∧ prev ≠ some '\\' then part :: splitUnescapedCommas (some c) [] rest
      else splitUnescapedCommas (some c) (part ++ [c]) rest

namespace Variables

def new (varsType : VariablesType) : Variables := ⟨varsType, [], List.nodup_nil⟩

def insert (v : Variables) (key value : Str) : Variables :=
  { v with inner := indexInsert key value v.inner, nodup := nodup_indexInsert v.nodup }

def isEmpty (v : Variables) : Bool := v.inner.isEmpty

def display (v : Variables) : Str :=
  v.varsType.delimiters.1 ::
    [','].intercalate (v.inner.map fun p ↦ p.1 ++ '=' :: escapeValue p.2) ++
    [v.varsType.delimiters.2]

def insertPart (v : Variables) (part : Str) : OriginateResult Variables :=
  match splitOnce '=' part with
  | some (key, value) => .ok (v.insert key (unescapeValue value))
  | none => .error (.parseError ("missing = in variable: ".toList ++ part))

def scopeOf : Option Char → Option Char → Option VariablesType
  | some '{', some '}' => some .default
  | some '<', some '>' => some .enterprise
  | some '[', some ']' => some .channel
  | _, _ => none

def fromStr (s : Str) : OriginateResult Variables :=
  let s := trim s
  if (utf8Encode s).length < 2 then .error (.parseError "variable block too short".toList)
  else match scopeOf s.head? s.getLast? with
    | none => .error (.parseError ("unknown variable delimiters: ".toList ++ s))
    | some varsType =>
        (splitUnescapedCommas none [] s.tail.dropLast).foldlM insertPart (new varsType)

end Variables

/-! ## Endpoints -/

inductive Endpoint where
  | generic (uri : Str) (vars : Option Variables)
  | loopback (uri context : Str) (vars : Option Variables)
  | sofiaGateway (uri : Str) (profile : Option Str) (gateway : Str)
      (vars : Option Variables)
  deriving DecidableEq

namespace Endpoint

def writeVariables (vars : Option Variables) : Str :=
  match vars with
  | some vars => if vars.isEmpty then [] else vars.display
  | none => []

def display : Endpoint → Str
  | generic uri vars => writeVariables vars ++ uri
  | loopback uri context vars =>
      writeVariables vars ++ "loopback/".toList ++ uri ++ '/' :: context
  | sofiaGateway uri (some profile) gateway vars =>
      writeVariables vars ++ "sofia/gateway/".toList ++ profile ++ "::".toList ++ gateway ++
        '/' :: uri
  | sofiaGateway uri none gateway vars =>
      writeVariables vars ++ "sofia/gateway/".toList ++ gateway ++ '/' :: uri

def fromStr (s : Str) : OriginateResult Endpoint :=
  if '{' ∈ s then
    match splitOnce '}' s with
    | none => .error (.parseError "unclosed \x7b in endpoint".toList)
    | some (block, rest) => do
        let vars ← Variables.fromStr (block ++ ['}'])
        return generic (trim rest) (if vars.isEmpty then none else some vars)
  else .ok (generic s none)

end Endpoint

end FreeswitchEsl
