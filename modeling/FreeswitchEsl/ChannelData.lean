import FreeswitchEsl.Protocol.Formats

/-!
# Channel data in event headers

The states, the directions and the timestamps that an event carries about a channel, and
the accessors of an event that read them.
-/

namespace FreeswitchEsl

open Text

namespace ChannelData

/-! ## Names on the wire -/

/-- `char::to_lowercase` as far as the result is ASCII, as for `toUppercase`. -/
def toLowercase (c : Char) : Str :=
  if c.isUpper then [c.toLower] else if c.toNat = 0x212A then ['k'] else [c]

/-- An enumeration with a name for every value.  `from_str` compares the cased text with
the names, and casing leaves the names alone. -/
structure Naming (α : Type) where
  display : α → Str
  all : List α
  fold : Char → Str
  mem_all : ∀ a, a ∈ all
  display_injective : Function.Injective display
  fold_display : ∀ a, (display a).flatMap fold = display a

/-- The error of `from_str` carries the text as it was given. -/
def Naming.fromStr {α : Type} (N : Naming α) (s : Str) : Except Str α :=
  match N.all.find? fun a ↦ decide (N.display a = s.flatMap N.fold) with
  | some a => .ok a
  | none => .error s

section Naming

variable {α : Type} {N : Naming α} {s : Str} {a : α}

theorem Naming.fromStr_eq_ok_iff : N.fromStr s = .ok a ↔ s.flatMap N.fold = N.display a := by
  unfold Naming.fromStr
  constructor
  · intro h
    split at h
    · rename_i b hb
      obtain rfl := Except.ok.inj h
      have hname := List.find?_some hb
      exact (of_decide_eq_true hname).symm
    · cases h
  · intro h
    cases hfind : N.all.find? fun b ↦ decide (N.display b = s.flatMap N.fold) with
    | none =>
        have hnone := List.find?_eq_none.mp hfind a (N.mem_all a)
        exact absurd (decide_eq_true h.symm) hnone
    | some b =>
        have hname := List.find?_some hfind
        have hb : N.display b = N.display a := (of_decide_eq_true hname).trans h
        exact congrArg Except.ok (N.display_injective hb)

theorem Naming.fromStr_display (a : α) : N.fromStr (N.display a) = .ok a :=
  Naming.fromStr_eq_ok_iff.mpr (N.fold_display a)

end Naming

/-! ## States and directions -/

inductive ChannelState where
  | csNew | csInit | csRouting | csSoftExecute | csExecute | csExchangeMedia | csPark
  | csConsumeMedia | csHibernate | csReset | csHangup | csReporting | csDestroy | csNone
  deriving DecidableEq

namespace ChannelState

def fromNumber (n : UInt8) : Option ChannelState :=
  match n.toNat with
  | 0 => some csNew
  | 1 => some csInit
  | 2 => some csRouting
  | 3 => some csSoftExecute
  | 4 => some csExecute
  | 5 => some csExchangeMedia
  | 6 => some csPark
  | 7 => some csConsumeMedia
  | 8 => some csHibernate
  | 9 => some csReset
  | 10 => some csHangup
  | 11 => some csReporting
  | 12 => some csDestroy
  | 13 => some csNone
  | _ => none

/-- The discriminant. -/
def asNumber : ChannelState → UInt8
  | csNew => 0
  | csInit => 1
  | csRouting => 2
  | csSoftExecute => 3
  | csExecute => 4
  | csExchangeMedia => 5
  | csPark => 6
  | csConsumeMedia => 7
  | csHibernate => 8
  | csReset => 9
  | csHangup => 10
  | csReporting => 11
  | csDestroy => 12
  | csNone => 13

def display : ChannelState → Str
  | csNew => "CS_NEW".toList
  | csInit => "CS_INIT".toList
  | csRouting => "CS_ROUTING".toList
  | csSoftExecute => "CS_SOFT_EXECUTE".toList
  | csExecute => "CS_EXECUTE".toList
  | csExchangeMedia => "CS_EXCHANGE_MEDIA".toList
  | csPark => "CS_PARK".toList
  | csConsumeMedia => "CS_CONSUME_MEDIA".toList
  | csHibernate => "CS_HIBERNATE".toList
  | csReset => "CS_RESET".toList
  | csHangup => "CS_HANGUP".toList
  | csReporting => "CS_REPORTING".toList
  | csDestroy => "CS_DESTROY".toList
  | csNone => "CS_NONE".toList

def naming : Naming ChannelState where
  display := display
  all := [csNew, csInit, csRouting, csSoftExecute, csExecute, csExchangeMedia, csPark,
    csConsumeMedia, csHibernate, csReset, csHangup, csReporting, csDestroy, csNone]
  fold := EslEventType.toUppercase
  mem_all a := by cases a <;> decide
  display_injective a b h := by revert h; cases a <;> cases b <;> decide
  fold_display a := by cases a <;> decide

def fromStr (s : Str) : Except Str ChannelState := naming.fromStr s

/-- The numbers of the states are exactly the numbers that are understood. -/
theorem fromNumber_eq_some_iff {n : UInt8} {s : ChannelState} :
    fromNumber n = some s ↔ s.asNumber = n := by
  constructor
  · intro h
    have hn : n = UInt8.ofNat n.toNat := UInt8.ofNat_toNat.symm
    unfold fromNumber at h
    split at h <;> rename_i hnat <;>
      first
        | (obtain rfl := Option.some.inj h; rw [hn, hnat]; rfl)
        | cases h
  · rintro rfl
    cases s <;> rfl

end ChannelState

inductive CallState where
  | down | dialing | ringing | early | active | held | ringWait | hangup | unheld
  deriving DecidableEq

namespace CallState

def display : CallState → Str
  | down => "DOWN".toList
  | dialing => "DIALING".toList
  | ringing => "RINGING".toList
  | early => "EARLY".toList
  | active => "ACTIVE".toList
  | held => "HELD".toList
  | ringWait => "RING_WAIT".toList
  | hangup => "HANGUP".toList
  | unheld => "UNHELD".toList

def naming : Naming CallState where
  display := display
  all := [down, dialing, ringing, early, active, held, ringWait, hangup, unheld]
  fold := EslEventType.toUppercase
  mem_all a := by cases a <;> decide
  display_injective a b h := by revert h; cases a <;> cases b <;> decide
  fold_display a := by cases a <;> decide

def fromStr (s : Str) : Except Str CallState := naming.fromStr s

end CallState

inductive AnswerState where
  | hangup | answered | early | ringing
  deriving DecidableEq

namespace AnswerState

def display : AnswerState → Str
  | hangup => "hangup".toList
  | answered => "answered".toList
  | early => "early".toList
  | ringing => "ringing".toList

def naming : Naming AnswerState where
  display := display
  all := [hangup, answered, early, ringing]
  fold := toLowercase
  mem_all a := by cases a <;> decide
  display_injective a b h := by revert h; cases a <;> cases b <;> decide
  fold_display a := by cases a <;> decide

def fromStr (s : Str) : Except Str AnswerState := naming.fromStr s

end AnswerState

inductive CallDirection where
  | inbound | outbound
  deriving DecidableEq

namespace CallDirection

def display : CallDirection → Str
  | inbound => "inbound".toList
  | outbound => "outbound".toList

def naming : Naming CallDirection where
  display := display
  all := [inbound, outbound]
  fold := toLowercase
  mem_all a := by cases a <;> decide
  display_injective a b h := by revert h; cases a <;> cases b <;> decide
  fold_display a := by cases a <;> decide

def fromStr (s : Str) : Except Str CallDirection := naming.fromStr s

end CallDirection

/-! ## Numbers -/

/-- The sign of a number, and what is behind it. -/
def splitSign : Str → Bool × Str
  | '-' :: digits => (true, digits)
  | '+' :: digits => (false, digits)
  | digits => (false, digits)

/-- `str::parse::<i64>`. -/
def parseI64 (s : Str) : Option Int64 :=
  let (negative, digits) := splitSign s
  let magnitude : Int := Nat.ofDigitChars 10 digits 0
  let value := if negative then -magnitude else magnitude
  if digits ≠ [] ∧ digits.all Char.isDigit = true ∧ -2 ^ 63 ≤ value ∧ value < 2 ^ 63 then
    some (Int64.ofInt value)
  else none

/-- `i64::to_string`. -/
def displayI64 (n : Int64) : Str :=
  (if n.toInt < 0 then ['-'] else []) ++ displayNat n.toInt.natAbs

theorem splitSign_displayI64 (n : Int64) :
    splitSign (displayI64 n) = (decide (n.toInt < 0), displayNat n.toInt.natAbs) := by
  by_cases hneg : n.toInt < 0
  · rw [displayI64, if_pos hneg, decide_eq_true hneg]
    rfl
  · rw [displayI64, if_neg hneg, decide_eq_false hneg, List.nil_append]
    -- a digit is not a sign
    obtain ⟨c, rest, hcons⟩ := List.exists_cons_of_ne_nil (displayNat_ne_nil n.toInt.natAbs)
    have hc : c.isDigit = true := isDigit_of_mem_displayNat (hcons ▸ List.mem_cons_self)
    rw [hcons]
    unfold splitSign
    split
    · rename_i h
      obtain ⟨rfl, -⟩ := List.cons.inj h
      cases hc
    · rename_i h
      obtain ⟨rfl, -⟩ := List.cons.inj h
      cases hc
    · rfl

theorem parseI64_displayI64 (n : Int64) : parseI64 (displayI64 n) = some n := by
  have hdigits : (displayNat n.toInt.natAbs).all Char.isDigit = true :=
    List.all_eq_true.mpr fun _ hc ↦ isDigit_of_mem_displayNat hc
  have hmagnitude : Nat.ofDigitChars 10 (displayNat n.toInt.natAbs) 0 = n.toInt.natAbs :=
    Nat.ofDigitChars_ten_toDigits
  have hvalue : (if decide (n.toInt < 0) = true then -(n.toInt.natAbs : Int)
      else (n.toInt.natAbs : Int)) = n.toInt := by
    by_cases hneg : n.toInt < 0
    · rw [decide_eq_true hneg, if_pos rfl]
      omega
    · rw [decide_eq_false hneg, if_neg Bool.false_ne_true]
      omega
  simp only [parseI64, splitSign_displayI64, hmagnitude, hvalue]
  rw [if_pos ⟨displayNat_ne_nil _, hdigits, Int64.le_toInt n, Int64.toInt_lt n⟩,
    Int64.ofInt_toInt]

/-! ## Timetables -/

/-- Timestamps of a channel in epoch microseconds; nothing when the header is absent or
does not parse. -/
structure ChannelTimetable where
  profileCreated : Option Int64
  created : Option Int64
  answered : Option Int64
  progress : Option Int64
  progressMedia : Option Int64
  hungup : Option Int64
  transferred : Option Int64
  resurrected : Option Int64
  bridged : Option Int64
  lastHold : Option Int64
  holdAccum : Option Int64
  deriving DecidableEq

namespace ChannelTimetable

def default : ChannelTimetable :=
  ⟨none, none, none, none, none, none, none, none, none, none, none⟩

/-- The fields, in the order in which they are read. -/
inductive Field where
  | profileCreated | created | answered | progress | progressMedia | hungup | transferred
  | resurrected | bridged | lastHold | holdAccum
  deriving DecidableEq

namespace Field

def all : List Field :=
  [profileCreated, created, answered, progress, progressMedia, hungup, transferred, resurrected,
   bridged, lastHold, holdAccum]

/-- The header of a field is the prefix, a dash and this. -/
def suffix : Field → Str
  | profileCreated => "Profile-Created-Time".toList
  | created => "Channel-Created-Time".toList
  | answered => "Channel-Answered-Time".toList
  | progress => "Channel-Progress-Time".toList
  | progressMedia => "Channel-Progress-Media-Time".toList
  | hungup => "Channel-Hangup-Time".toList
  | transferred => "Channel-Transfer-Time".toList
  | resurrected => "Channel-Resurrect-Time".toList
  | bridged => "Channel-Bridged-Time".toList
  | lastHold => "Channel-Last-Hold".toList
  | holdAccum => "Channel-Hold-Accum".toList

def header (leg : Str) (f : Field) : Str := leg ++ '-' :: f.suffix

theorem mem_all (f : Field) : f ∈ all := by cases f <;> decide

theorem not_suffix (f g : Field) (h : f ≠ g) : ¬ '-' :: f.suffix <:+ '-' :: g.suffix := by
  revert h
  cases f <;> cases g <;> decide

/-- A header belongs to one leg and one field: no suffix ends in a dash and another. -/
theorem header_injective {leg leg' : Str} {f g : Field} (h : header leg f = header leg' g) :
    leg = leg' ∧ f = g := by
  have hfg : f = g := by
    by_contra hne
    have hf : '-' :: f.suffix <:+ header leg f := ⟨leg, rfl⟩
    have hg : '-' :: g.suffix <:+ header leg f := ⟨leg', h.symm⟩
    rcases List.suffix_or_suffix_of_suffix hf hg with hsuffix | hsuffix
    · exact not_suffix f g hne hsuffix
    · exact not_suffix g f (Ne.symm hne) hsuffix
  subst hfg
  exact ⟨List.append_cancel_right h, rfl⟩

end Field

def get (t : ChannelTimetable) : Field → Option Int64
  | .profileCreated => t.profileCreated
  | .created => t.created
  | .answered => t.answered
  | .progress => t.progress
  | .progressMedia => t.progressMedia
  | .hungup => t.hungup
  | .transferred => t.transferred
  | .resurrected => t.resurrected
  | .bridged => t.bridged
  | .lastHold => t.lastHold
  | .holdAccum => t.holdAccum

def set (t : ChannelTimetable) (f : Field) (v : Int64) : ChannelTimetable :=
  match f with
  | .profileCreated => { t with profileCreated := some v }
  | .created => { t with created := some v }
  | .answered => { t with answered := some v }
  | .progress => { t with progress := some v }
  | .progressMedia => { t with progressMedia := some v }
  | .hungup => { t with hungup := some v }
  | .transferred => { t with transferred := some v }
  | .resurrected => { t with resurrected := some v }
  | .bridged => { t with bridged := some v }
  | .lastHold => { t with lastHold := some v }
  | .holdAccum => { t with holdAccum := some v }

@[simp] theorem get_default (f : Field) : default.get f = none := by cases f <;> rfl

theorem get_set (t : ChannelTimetable) (f g : Field) (v : Int64) :
    (t.set f v).get g = if g = f then some v else t.get g := by
  cases f <;> cases g <;> rfl

theorem ext_get {t t' : ChannelTimetable} (h : ∀ f, t.get f = t'.get f) : t = t' := by
  cases t
  cases t'
  simp only [mk.injEq]
  exact ⟨h .profileCreated, h .created, h .answered, h .progress, h .progressMedia, h .hungup,
    h .transferred, h .resurrected, h .bridged, h .lastHold, h .holdAccum⟩

/-- The value of a header, when it is there and parses. -/
def timestamp (e : EslEvent) (leg : Str) (f : Field) : Option Int64 :=
  (e.header (f.header leg)).bind parseI64

/-- One `field!`: the table so far, and whether anything was found. -/
def field (e : EslEvent) (leg : Str) (p : ChannelTimetable × Bool) (f : Field) :
    ChannelTimetable × Bool :=
  match timestamp e leg f with
  | some v => (p.1.set f v, true)
  | none => p

def fromEvent (e : EslEvent) (leg : Str) : Option ChannelTimetable :=
  let (tt, found) := Field.all.foldl (field e leg) (default, false)
  if found then some tt else none

section FromEvent

variable {e : EslEvent} {leg : Str} {t : ChannelTimetable}

theorem get_field (p : ChannelTimetable × Bool) (f g : Field) :
    (field e leg p f).1.get g =
      if g = f then (timestamp e leg f).or (p.1.get g) else p.1.get g := by
  unfold field
  cases timestamp e leg f with
  | some v => exact get_set p.1 f g v
  | none => simp

theorem found_field (p : ChannelTimetable × Bool) (f : Field) :
    (field e leg p f).2 = (p.2 || (timestamp e leg f).isSome) := by
  unfold field
  cases timestamp e leg f <;> simp

theorem get_foldl_field (fs : List Field) (p : ChannelTimetable × Bool) (g : Field) :
    (fs.foldl (field e leg) p).1.get g =
      if g ∈ fs then (timestamp e leg g).or (p.1.get g) else p.1.get g := by
  induction fs generalizing p with
  | nil => rfl
  | cons f fs ih =>
      rw [List.foldl_cons, ih, get_field]
      by_cases hf : g = f
      · subst hf
        cases timestamp e leg g <;> simp
      · simp [hf]

theorem found_foldl_field (fs : List Field) (p : ChannelTimetable × Bool) :
    (fs.foldl (field e leg) p).2 = (p.2 || fs.any fun f ↦ (timestamp e leg f).isSome) := by
  induction fs generalizing p with
  | nil => simp
  | cons f fs ih => rw [List.foldl_cons, ih, found_field, List.any_cons, Bool.or_assoc]

theorem fromEvent_eq (e : EslEvent) (leg : Str) :
    fromEvent e leg = if (Field.all.foldl (field e leg) (default, false)).2 = true then
      some (Field.all.foldl (field e leg) (default, false)).1 else none := rfl

/-- Every field is the header of its name, whatever else the event has. -/
theorem get_of_fromEvent (h : fromEvent e leg = some t) (f : Field) :
    t.get f = timestamp e leg f := by
  rw [fromEvent_eq] at h
  split at h
  · obtain rfl := Option.some.inj h
    rw [get_foldl_field, if_pos f.mem_all, get_default, Option.or_none]
  · cases h

theorem fromEvent_eq_none_iff : fromEvent e leg = none ↔ ∀ f, timestamp e leg f = none := by
  have hfound : (Field.all.foldl (field e leg) (default, false)).2 =
      (false || Field.all.any fun f ↦ (timestamp e leg f).isSome) := found_foldl_field _ _
  rw [Bool.false_or] at hfound
  rw [fromEvent_eq]
  constructor
  · intro h f
    split at h
    · cases h
    · rename_i hnot
      have hany := Bool.eq_false_iff.mpr hnot
      rw [hfound, List.any_eq_false] at hany
      simpa using hany f f.mem_all
  · intro h
    refine if_neg ?_
    rw [hfound]
    simp [h]

theorem fromEvent_eq_of_timestamp (h : ∀ f, timestamp e leg f = t.get f) :
    fromEvent e leg = if t = default then none else some t := by
  split
  · rename_i ht
    refine fromEvent_eq_none_iff.mpr fun f ↦ ?_
    rw [h, ht, get_default]
  · rename_i ht
    cases hread : fromEvent e leg with
    | none =>
        have hnone := fromEvent_eq_none_iff.mp hread
        exact absurd (ext_get fun f ↦ by rw [← h, hnone, get_default]) ht
    | some t' =>
        have hget := get_of_fromEvent hread
        exact congrArg some (ext_get fun f ↦ by rw [hget, h])

theorem fromEvent_congr {e' : EslEvent} (h : ∀ f, timestamp e' leg f = timestamp e leg f) :
    fromEvent e' leg = fromEvent e leg := by
  have hfield : field e' leg = field e leg := by
    funext p f
    rw [field, field, h]
  rw [fromEvent, fromEvent, hfield]

end FromEvent

/-! ## A server that sends timetables -/

/-- The headers that stand for a timetable. -/
def entries (leg : Str) (t : ChannelTimetable) : List (Str × Str) :=
  Field.all.filterMap fun f ↦ (t.get f).map fun v ↦ (f.header leg, displayI64 v)

/-- The event with the timetables of some legs among its headers. -/
def written (headers : HeaderMap) (legs : List (Str × ChannelTimetable)) : HeaderMap :=
  (legs.flatMap fun l ↦ entries l.1 l.2).foldl (fun m p ↦ m.insert p.1 p.2) headers

theorem mem_entries {leg name value : Str} {t : ChannelTimetable} :
    (name, value) ∈ entries leg t ↔
      ∃ f v, t.get f = some v ∧ f.header leg = name ∧ displayI64 v = value := by
  simp [entries, Field.mem_all]

theorem nodup_names_entries (leg : Str) (t : ChannelTimetable) :
    ((entries leg t).map Prod.fst).Nodup := by
  rw [entries, List.map_filterMap]
  refine List.Nodup.filterMap ?_ (by decide)
  intro f g name hf hg
  simp only [Option.map_map, Option.mem_def, Option.map_eq_some_iff] at hf hg
  obtain ⟨_, -, rfl⟩ := hf
  obtain ⟨_, -, hname⟩ := hg
  exact (Field.header_injective hname).2.symm

section Written

variable {headers : HeaderMap} {legs : List (Str × ChannelTimetable)} {leg : Str}
  {t : ChannelTimetable}

theorem leg_of_mem_flatMap {f : Field}
    (h : f.header leg ∈ (legs.flatMap fun l ↦ entries l.1 l.2).map Prod.fst) :
    leg ∈ legs.map Prod.fst := by
  obtain ⟨⟨name, value⟩, hp, hname⟩ := List.mem_map.mp h
  obtain ⟨l, hl, hp⟩ := List.mem_flatMap.mp hp
  obtain ⟨g, v, -, hg, -⟩ := mem_entries.mp hp
  rw [← (Field.header_injective (hg.trans hname)).1]
  exact List.mem_map_of_mem hl

theorem nodup_names_flatMap (h : (legs.map Prod.fst).Nodup) :
    ((legs.flatMap fun l ↦ entries l.1 l.2).map Prod.fst).Nodup := by
  induction legs with
  | nil => exact List.nodup_nil
  | cons l legs ih =>
      obtain ⟨hl, hlegs⟩ := List.nodup_cons.mp h
      rw [List.flatMap_cons, List.map_append, List.nodup_append]
      refine ⟨nodup_names_entries l.1 l.2, ih hlegs, ?_⟩
      rintro name hname _ hother rfl
      obtain ⟨⟨_, value⟩, hp, rfl⟩ := List.mem_map.mp hname
      obtain ⟨f, v, -, rfl, -⟩ := mem_entries.mp hp
      exact hl (leg_of_mem_flatMap hother)

/-- What is written under one prefix does not disturb another. -/
theorem get_written_of_notMem (h : leg ∉ legs.map Prod.fst) (f : Field) :
    (written headers legs).get (f.header leg) = headers.get (f.header leg) :=
  HeaderMap.get_foldl_insert_of_notMem (fun hmem ↦ h (leg_of_mem_flatMap hmem)) headers

theorem get_written_of_mem (hnodup : (legs.map Prod.fst).Nodup) (h : (leg, t) ∈ legs) (f : Field) :
    (written headers legs).get (f.header leg) =
      ((t.get f).map displayI64).or (headers.get (f.header leg)) := by
  rw [written, HeaderMap.get_foldl_insert]
  congr 1
  cases hv : t.get f with
  | some v =>
      refine HeaderMap.get_ofList_of_mem (nodup_names_flatMap hnodup) ?_
      exact List.mem_flatMap.mpr ⟨_, h, mem_entries.mpr ⟨f, v, hv, rfl, rfl⟩⟩
  | none =>
      refine HeaderMap.get_ofList_of_notMem fun hmem ↦ ?_
      obtain ⟨⟨name, value⟩, hp, hname⟩ := List.mem_map.mp hmem
      obtain ⟨⟨leg', t'⟩, hl, hp⟩ := List.mem_flatMap.mp hp
      obtain ⟨g, v, hg, hheader, -⟩ := mem_entries.mp hp
      obtain ⟨rfl, rfl⟩ := Field.header_injective (hheader.trans hname)
      -- a prefix has one table
      have hsame : ((leg', t') : Str × ChannelTimetable) = (leg', t) :=
        List.inj_on_of_nodup_map hnodup hl h rfl
      obtain ⟨-, rfl⟩ := Prod.mk.inj hsame
      rw [hv] at hg
      cases hg

theorem header_ne_contentLength (f : Field) (leg : Str) : f.header leg ≠ HEADER_CONTENT_LENGTH := by
  intro h
  have hlength := congrArg List.length h
  have hlong : 17 ≤ f.suffix.length := by cases f <;> decide
  have hshort : HEADER_CONTENT_LENGTH.length = 14 := by decide
  rw [Field.header, List.length_append, List.length_cons] at hlength
  omega

theorem clean_header (h : ':' ∉ leg ∧ '\n' ∉ leg ∧ trimStart leg = leg) (f : Field) :
    ':' ∉ f.header leg ∧ '\n' ∉ f.header leg ∧ Trimmed (f.header leg) := by
  have hsuffix : ':' ∉ '-' :: f.suffix ∧ '\n' ∉ '-' :: f.suffix ∧
      trimEnd ('-' :: f.suffix) = '-' :: f.suffix ∧
        trimStart ('-' :: f.suffix) = '-' :: f.suffix := by cases f <;> decide
  refine ⟨List.not_mem_append h.1 hsuffix.1, List.not_mem_append h.2.1 hsuffix.2.1, ?_⟩
  by_cases hleg : leg = []
  · rw [Field.header, hleg, List.nil_append]
    exact trimmed_of_eq hsuffix.2.2.2 hsuffix.2.2.1
  · exact trimmed_append h.2.2 hleg hsuffix.2.2.1 (List.cons_ne_nil _ _)

theorem cleanNames_written {e : EslEvent} (he : e.CleanNames)
    (hlegs : ∀ l ∈ legs, ':' ∉ l.1 ∧ '\n' ∉ l.1 ∧ trimStart l.1 = l.1) :
    EslEvent.CleanNames { e with headers := written e.headers legs } := by
  intro name value hvalue
  change HeaderMap.get (written e.headers legs) name = some value at hvalue
  rw [written, HeaderMap.get_foldl_insert, Option.or_eq_some_iff] at hvalue
  rcases hvalue with hvalue | ⟨-, hvalue⟩
  · by_cases hmem : name ∈ (legs.flatMap fun l ↦ entries l.1 l.2).map Prod.fst
    · obtain ⟨⟨_, text⟩, hp, rfl⟩ := List.mem_map.mp hmem
      obtain ⟨l, hl, hp⟩ := List.mem_flatMap.mp hp
      obtain ⟨f, v, -, rfl, -⟩ := mem_entries.mp hp
      exact clean_header (hlegs l hl) f
    · rw [HeaderMap.get_ofList_of_notMem hmem] at hvalue
      cases hvalue
  · exact he name value hvalue

end Written

/-- Timetables under any prefixes survive the wire: each is read back from the plain format
of the event, and what is read under another prefix is what the event had before. -/
theorem timetables_restored {X : Crates} (hX : X.PercentLaws) (order : HashOrder)
    (outer : HeaderMap) {e : EslEvent} {legs : List (Str × ChannelTimetable)}
    (he : e.CleanNames) (hbody : e.body ≠ some [])
    (hlegs : ∀ l ∈ legs, ':' ∉ l.1 ∧ '\n' ∉ l.1 ∧ trimStart l.1 = l.1)
    (hnodup : (legs.map Prod.fst).Nodup)
    (hnew : ∀ l ∈ legs, ∀ f : Field, e.header (f.header l.1) = none) :
    ∃ e', parseEvent X ⟨.event, outer,
        some (EslEvent.toPlainFormat X order { e with headers := written e.headers legs })⟩
          .plain = .ok e' ∧
      (∀ l ∈ legs, fromEvent e' l.1 = if l.2 = default then none else some l.2) ∧
        ∀ leg, leg ∉ legs.map Prod.fst → fromEvent e' leg = fromEvent e leg := by
  let sent : EslEvent := { e with headers := written e.headers legs }
  refine ⟨_, parsePlainEvent_of_writesPlain hX (cleanNames_written he hlegs) hbody
    (sent.writesPlain_toPlainFormat X order) outer, ?_, ?_⟩
  · rintro ⟨leg, t⟩ hl
    refine fromEvent_eq_of_timestamp fun f ↦ ?_
    rw [timestamp, sent.restores_withEventName.header _ (header_ne_contentLength f leg)]
    change ((written e.headers legs).get (f.header leg)).bind parseI64 = t.get f
    have hnone : e.headers.get (f.header leg) = none := hnew _ hl f
    rw [get_written_of_mem hnodup hl, hnone, Option.or_none]
    cases t.get f with
    | some v => exact parseI64_displayI64 v
    | none => rfl
  · intro leg hleg
    refine fromEvent_congr fun f ↦ ?_
    rw [timestamp, sent.restores_withEventName.header _ (header_ne_contentLength f leg)]
    exact congrArg (Option.bind · parseI64) (get_written_of_notMem hleg f)

theorem timetables_restored_bothLegs :
    let caller : ChannelTimetable :=
      { default with created := some 1700000000000000, hungup := some 0 }
    let other : ChannelTimetable := { default with lastHold := some (-1) }
    let legs := [("Caller".toList, caller), ("Other-Leg".toList, other)]
    ∃ e', parseEvent .percentOnly ⟨.event, HeaderMap.empty,
        some (EslEvent.toPlainFormat .percentOnly .byName
          { EslEvent.talk none with headers := written (EslEvent.talk none).headers legs })⟩
          .plain = .ok e' ∧
      (∀ l ∈ legs, fromEvent e' l.1 = if l.2 = default then none else some l.2) ∧
        ∀ leg, leg ∉ legs.map Prod.fst → fromEvent e' leg = fromEvent (EslEvent.talk none) leg := by
  intro caller other legs
  refine timetables_restored Crates.percentOnly_percentLaws .byName HeaderMap.empty
    (EslEvent.cleanNames_talk none) (by decide) (by decide) (by decide) ?_
  intro l hl f
  refine HeaderMap.get_insert_of_ne _ _ fun h ↦ ?_
  have hlength := congrArg List.length h
  have hlong : 17 ≤ f.suffix.length := by cases f <;> decide
  have hshort : HEADER_EVENT_NAME.length = 10 := by decide
  rw [Field.header, List.length_append, List.length_cons] at hlength
  omega

end ChannelTimetable

end ChannelData

/-! ## Accessors of an event -/

namespace EslEvent

open ChannelData

def HEADER_UNIQUE_ID : Str := "Unique-ID".toList
def HEADER_CALLER_UUID : Str := "Caller-Unique-ID".toList
def HEADER_CHANNEL_STATE : Str := "Channel-State".toList
def HEADER_CHANNEL_STATE_NUMBER : Str := "Channel-State-Number".toList
def HEADER_CHANNEL_CALL_STATE : Str := "Channel-Call-State".toList
def HEADER_ANSWER_STATE : Str := "Answer-State".toList
def HEADER_CALL_DIRECTION : Str := "Call-Direction".toList

def uniqueId (e : EslEvent) : Option Str :=
  (e.header HEADER_UNIQUE_ID).or (e.header HEADER_CALLER_UUID)

def jobUuid (e : EslEvent) : Option Str := e.header "Job-UUID".toList

def channelState (e : EslEvent) : Option ChannelState :=
  (e.header HEADER_CHANNEL_STATE).bind fun s ↦ (ChannelState.fromStr s).toOption

def channelStateNumber (e : EslEvent) : Option ChannelState := do
  let n ← (← e.header HEADER_CHANNEL_STATE_NUMBER) |> parseUnsigned 256
  ChannelState.fromNumber (UInt8.ofNat n)

def callState (e : EslEvent) : Option ChannelData.CallState :=
  (e.header HEADER_CHANNEL_CALL_STATE).bind fun s ↦ (ChannelData.CallState.fromStr s).toOption

def answerState (e : EslEvent) : Option AnswerState :=
  (e.header HEADER_ANSWER_STATE).bind fun s ↦ (AnswerState.fromStr s).toOption

def callDirection (e : EslEvent) : Option CallDirection :=
  (e.header HEADER_CALL_DIRECTION).bind fun s ↦ (CallDirection.fromStr s).toOption

def variable_ (e : EslEvent) (name : Str) : Option Str := e.header ("variable_".toList ++ name)

def timetable (e : EslEvent) (leg : Str) : Option ChannelTimetable :=
  ChannelTimetable.fromEvent e leg

def callerTimetable (e : EslEvent) : Option ChannelTimetable := e.timetable "Caller".toList

def otherLegTimetable (e : EslEvent) : Option ChannelTimetable := e.timetable "Other-Leg".toList

/-- The header has the name of the value, in any case. -/
def HasName {α : Type} (e : EslEvent) (N : Naming α) (name : Str) (a : α) : Prop :=
  ∃ text, e.header name = some text ∧ text.flatMap N.fold = N.display a

/-- The header has the number of the state. -/
def HasNumber (e : EslEvent) (s : ChannelState) : Prop :=
  ∃ text, e.header HEADER_CHANNEL_STATE_NUMBER = some text ∧
    parseUnsigned 256 text = some s.asNumber.toNat

theorem bind_fromStr_eq_some_iff {α : Type} {e : EslEvent} {N : Naming α} {name : Str} {a : α} :
    ((e.header name).bind fun s ↦ (N.fromStr s).toOption) = some a ↔ e.HasName N name a := by
  rw [Option.bind_eq_some_iff]
  refine exists_congr fun text ↦ and_congr_right fun _ ↦ ?_
  rw [toOption_eq_some, Naming.fromStr_eq_ok_iff]

theorem channelStateNumber_eq_some_iff {e : EslEvent} {s : ChannelState} :
    e.channelStateNumber = some s ↔ e.HasNumber s := by
  change ((e.header HEADER_CHANNEL_STATE_NUMBER).bind fun text ↦
    (parseUnsigned 256 text).bind fun n ↦ ChannelState.fromNumber (UInt8.ofNat n)) = some s ↔ _
  rw [Option.bind_eq_some_iff]
  refine exists_congr fun text ↦ and_congr_right fun _ ↦ ?_
  rw [Option.bind_eq_some_iff]
  constructor
  · rintro ⟨n, hn, hs⟩
    rw [hn, ChannelState.fromNumber_eq_some_iff.mp hs,
      UInt8.toNat_ofNat_of_lt' (lt_of_parseUnsigned hn)]
  · intro hs
    refine ⟨_, hs, ChannelState.fromNumber_eq_some_iff.mpr ?_⟩
    rw [UInt8.ofNat_toNat]

/-- Behind the wire the accessors read the event that was sent.  A state or a direction is
what the name in its header stands for, in any case, and a timetable or a variable is the one
the event had. -/
theorem accessors_restored {X : Crates} (hX : X.PercentLaws) (order : HashOrder)
    (outer : HeaderMap) {e : EslEvent} (he : e.CleanNames) (hbody : e.body ≠ some []) :
    ∃ e', parseEvent X ⟨.event, outer, some (e.toPlainFormat X order)⟩ .plain = .ok e' ∧
      (∀ s, e'.channelState = some s ↔ e.HasName ChannelState.naming HEADER_CHANNEL_STATE s) ∧
      (∀ s, e'.channelStateNumber = some s ↔ e.HasNumber s) ∧
      (∀ c, e'.callState = some c ↔
        e.HasName ChannelData.CallState.naming HEADER_CHANNEL_CALL_STATE c) ∧
      (∀ a, e'.answerState = some a ↔ e.HasName AnswerState.naming HEADER_ANSWER_STATE a) ∧
      (∀ d, e'.callDirection = some d ↔
        e.HasName CallDirection.naming HEADER_CALL_DIRECTION d) ∧
      e'.callerTimetable = e.callerTimetable ∧ e'.otherLegTimetable = e.otherLegTimetable ∧
        ∀ name, e'.variable_ name = e.variable_ name := by
  let e' := withEventName ⟨none, e.plainHeaders, e.body⟩
  have hheader : ∀ name, name ≠ HEADER_CONTENT_LENGTH → e'.header name = e.header name :=
    e.restores_withEventName.header
  have hname : ∀ {α : Type} (N : Naming α) {name : Str} (a : α), name ≠ HEADER_CONTENT_LENGTH →
      (e'.HasName N name a ↔ e.HasName N name a) := by
    intro α N name a hne
    rw [HasName, HasName, hheader name hne]
  have htimetable : ∀ leg, e'.timetable leg = e.timetable leg := by
    intro leg
    refine ChannelTimetable.fromEvent_congr fun f ↦ ?_
    rw [ChannelTimetable.timestamp, ChannelTimetable.timestamp,
      hheader _ (ChannelTimetable.header_ne_contentLength f leg)]
  refine ⟨e', parsePlainEvent_of_writesPlain hX he hbody (e.writesPlain_toPlainFormat X order)
    outer, ?_, ?_, ?_, ?_, ?_, htimetable _, htimetable _, ?_⟩
  · exact fun s ↦ bind_fromStr_eq_some_iff.trans (hname _ s (by decide))
  · intro s
    rw [channelStateNumber_eq_some_iff, HasNumber, HasNumber, hheader _ (by decide)]
  · exact fun c ↦ bind_fromStr_eq_some_iff.trans (hname _ c (by decide))
  · exact fun a ↦ bind_fromStr_eq_some_iff.trans (hname _ a (by decide))
  · exact fun d ↦ bind_fromStr_eq_some_iff.trans (hname _ d (by decide))
  · intro name
    refine hheader _ fun h ↦ ?_
    have hfirst : some 'v' = some 'C' := congrArg List.head? h
    exact absurd hfirst (by decide)

/-- A channel that is executed, with its state in mixed case. -/
def executing : EslEvent :=
  (((((EslEvent.talk none).setHeader HEADER_CHANNEL_STATE "cs_Execute".toList).setHeader
    HEADER_CHANNEL_STATE_NUMBER "04".toList).setHeader HEADER_CHANNEL_CALL_STATE
      "RING_WAIT".toList).setHeader HEADER_CALL_DIRECTION "Inbound".toList).setHeader
        "variable_greeting".toList "hello world".toList

theorem accessors_restored_executing :
    ∃ e', parseEvent .percentOnly ⟨.event, HeaderMap.empty,
        some (executing.toPlainFormat .percentOnly .byName)⟩ .plain = .ok e' ∧
      e'.channelState = some .csExecute ∧ e'.channelStateNumber = some .csExecute ∧
        e'.callState = some .ringWait ∧ e'.answerState = none ∧
          e'.callDirection = some .inbound ∧
            e'.variable_ "greeting".toList = some "hello world".toList := by
  have he : executing.CleanNames :=
    (((((cleanNames_talk none).setHeader (by decide) _).setHeader (by decide) _).setHeader
      (by decide) _).setHeader (by decide) _).setHeader (by decide) _
  obtain ⟨e', hparse, hstate, hnumber, hcall, hanswer, hdirection, -, -, hvariable⟩ :=
    accessors_restored Crates.percentOnly_percentLaws .byName HeaderMap.empty he (by decide)
  refine ⟨e', hparse, (hstate _).mpr ⟨"cs_Execute".toList, ?_, ?_⟩,
    (hnumber _).mpr ⟨"04".toList, ?_, ?_⟩, (hcall _).mpr ⟨"RING_WAIT".toList, ?_, ?_⟩, ?_,
    (hdirection _).mpr ⟨"Inbound".toList, ?_, ?_⟩, (hvariable _).trans ?_⟩
  case refine_7 =>
    refine Option.eq_none_iff_forall_ne_some.mpr fun a ha ↦ ?_
    obtain ⟨text, htext, -⟩ := (hanswer a).mp ha
    have hnone : executing.header HEADER_ANSWER_STATE = none := by decide +kernel
    rw [hnone] at htext
    cases htext
  all_goals decide +kernel

end EslEvent

end FreeswitchEsl
