import FreeswitchEsl.Tracker.Channels
import Mathlib.Data.Finset.Sort

/-!
# The summary of the tracker

On every heartbeat the tracker prints a table of its channels, sorted by UUID.  A line shows
the beginning of two texts that come from the switch, and the slice can panic.
-/

namespace FreeswitchEsl.Tracker

open Text ChannelData

/-! ## Printing -/

/-- `{:<n}`. -/
def padded (n : Nat) (s : Str) : Str := s ++ List.replicate (n - s.length) ' '

def displayOr {α : Type} (display : α → Str) : Option α → Str
  | some v => display v
  | none => "-".toList

namespace TrackedChannel

variable (ch : TrackedChannel)

def formatFields : Str × Str × Str × Str × Str :=
  (displayOr ChannelState.display ch.channelState,
    displayOr ChannelData.CallState.display ch.callState,
    displayOr CallDirection.display ch.callDirection,
    (ch.get "Caller-Caller-ID-Number".toList).getD "-".toList,
    (ch.get "Channel-Name".toList).getD "-".toList)

/-- The beginning of a text between brackets, nothing when the text is absent. -/
def bracketed (label : String) (n : Nat) : Option Str → Option Str
  | some s => (sliceTo n s).map fun cut ↦ label.toList ++ cut ++ "]".toList
  | none => some []

def flags : Option Str := do
  let held := if ch.callState = some ChannelData.CallState.held then "[HELD]".toList else []
  let sec := if (ch.var "rtp_secure_media_confirmed".toList).isSome then "[SEC]".toList else []
  let bridged ← bracketed "[B:" 8 (ch.get ChannelTracker.OTHER_LEG)
  let sip ← bracketed "[SIP:" 16 (ch.var "sip_call_id".toList)
  some (held ++ sec ++ bridged ++ sip)

def summaryLine (uuid : Str) : Option Str :=
  let (state, callState, dir, cid, name) := ch.formatFields
  let dest := (ch.get "Caller-Destination-Number".toList).getD "-".toList
  ch.flags.map fun flags ↦
    padded 36 uuid ++ "  ".toList ++ padded 14 state ++ [' '] ++ padded 10 callState ++ [' '] ++
      padded 8 dir ++ [' '] ++ padded 16 cid ++ [' '] ++ padded 16 dest ++ [' '] ++ name ++
        if flags = [] then [] else ' ' :: flags

end TrackedChannel

namespace ChannelTracker

def summaryHeader : Str :=
  padded 36 "UUID".toList ++ "  ".toList ++ padded 14 "STATE".toList ++ [' '] ++
    padded 10 "CALLSTATE".toList ++ [' '] ++ padded 8 "DIR".toList ++ [' '] ++
      padded 16 "CID-NUM".toList ++ [' '] ++ padded 16 "DEST".toList ++ " NAME".toList

/-- The channels, sorted by UUID. -/
def sorted (t : ChannelTracker) : List (Str × TrackedChannel) :=
  t.channels.keys.sort.filterMap fun uuid ↦ (t.channels.lookup uuid).map (uuid, ·)

/-- The lines on standard output. -/
def printSummary (t : ChannelTracker) : Option (List Str) :=
  if t.channels.keys = ∅ then some []
  else (t.sorted.mapM fun p : Str × TrackedChannel ↦ p.2.summaryLine p.1).map (summaryHeader :: ·)

end ChannelTracker

/-! ## When the summary panics -/

theorem mapM_eq_some_iff {α β : Type} {f : α → Option β} {l : List α} {r : List β} :
    l.mapM f = some r ↔ List.Forall₂ (fun a b ↦ f a = some b) l r := by
  induction l generalizing r with
  | nil => cases r <;> simp
  | cons a l ih =>
      rw [List.mapM_cons]
      cases hf : f a with
      | none =>
          refine iff_of_false (by simp) ?_
          rintro (_ | ⟨h, -⟩)
          rw [hf] at h
          cases h
      | some b =>
          cases hl : l.mapM f with
          | none =>
              refine iff_of_false (by simp) ?_
              rintro (_ | ⟨-, h⟩)
              rw [← ih, hl] at h
              cases h
          | some bs =>
              have hbs := ih.mp hl
              constructor
              · intro h
                obtain rfl : b :: bs = r := by simpa [hl] using h
                exact List.Forall₂.cons hf hbs
              · rintro (_ | ⟨h, hr⟩)
                rw [hf] at h
                rw [← ih, hl] at hr
                obtain rfl := Option.some.inj h
                obtain rfl := Option.some.inj hr
                simp

theorem mapM_eq_none_iff {α β : Type} {f : α → Option β} {l : List α} :
    l.mapM f = none ↔ ∃ a ∈ l, f a = none := by
  induction l with
  | nil => simp
  | cons a l ih =>
      rw [List.mapM_cons]
      cases hf : f a with
      | none => simp [hf]
      | some b =>
          cases hl : l.mapM f with
          | none => simpa [hf, hl] using ih.mp hl
          | some bs => simpa [hf, hl] using mt ih.mpr (by simp [hl])

namespace TrackedChannel

variable {ch : TrackedChannel} {uuid line : Str}

theorem bracketed_eq_none_iff (label : String) {n : Nat} {s : Option Str} :
    bracketed label n s = none ↔ ∃ text, s = some text ∧ CutsChar n text := by
  cases s with
  | none => simp [bracketed]
  | some text => simp [bracketed, sliceTo_eq_none_iff]

/-- The line of a channel cannot be printed. -/
def Panics (ch : TrackedChannel) : Prop :=
  (∃ other, ch.get ChannelTracker.OTHER_LEG = some other ∧ CutsChar 8 other) ∨
    ∃ callId, ch.var "sip_call_id".toList = some callId ∧ CutsChar 16 callId

theorem flags_eq_none_iff : ch.flags = none ↔ ch.Panics := by
  rw [Panics, ← bracketed_eq_none_iff "[B:", ← bracketed_eq_none_iff "[SIP:"]
  unfold flags
  generalize bracketed "[B:" 8 (ch.get ChannelTracker.OTHER_LEG) = bridged
  generalize bracketed "[SIP:" 16 (ch.var "sip_call_id".toList) = sip
  cases bridged with
  | none => exact iff_of_true rfl (Or.inl rfl)
  | some bridged =>
      cases sip with
      | none => exact iff_of_true rfl (Or.inr rfl)
      | some sip =>
          refine iff_of_false (fun h ↦ by cases h) ?_
          rintro (h | h) <;> cases h

theorem summaryLine_eq_none_iff : ch.summaryLine uuid = none ↔ ch.Panics := by
  rw [← flags_eq_none_iff]
  exact Option.map_eq_none_iff

theorem padded_prefix_summaryLine (h : ch.summaryLine uuid = some line) :
    padded 36 uuid <+: line := by
  obtain ⟨flags, -, rfl⟩ := Option.map_eq_some_iff.mp h
  simp only [List.append_assoc]
  exact List.prefix_append _ _

end TrackedChannel

namespace ChannelTracker

variable {t : ChannelTracker} {uuid : Str} {ch : TrackedChannel}

theorem mem_sorted : (uuid, ch) ∈ t.sorted ↔ t.channels.lookup uuid = some ch := by
  simp only [sorted, List.mem_filterMap, Option.map_eq_some_iff, Prod.mk.injEq]
  constructor
  · rintro ⟨u, -, c, hc, rfl, rfl⟩
    exact hc
  · intro h
    refine ⟨uuid, ?_, ch, h, rfl, rfl⟩
    rw [Finset.mem_sort, Finmap.mem_keys]
    exact Finmap.mem_of_lookup_eq_some h

theorem map_fst_sorted (t : ChannelTracker) : t.sorted.map Prod.fst = t.channels.keys.sort := by
  have hall : ∀ uuid ∈ t.channels.keys.sort, (t.channels.lookup uuid).isSome := by
    intro uuid huuid
    rw [Finset.mem_sort, Finmap.mem_keys] at huuid
    exact Finmap.lookup_isSome.mpr huuid
  rw [sorted, List.map_filterMap]
  generalize t.channels.keys.sort = uuids at hall
  induction uuids with
  | nil => rfl
  | cons uuid uuids ih =>
      obtain ⟨ch, hch⟩ := Option.isSome_iff_exists.mp (hall uuid List.mem_cons_self)
      rw [List.filterMap_cons_some (b := uuid) (by simp [hch])]
      rw [ih fun u hu ↦ hall u (List.mem_cons_of_mem _ hu)]

theorem keys_eq_empty_iff : t.channels.keys = ∅ ↔ t.channels = ∅ := by
  constructor
  · intro h
    apply Finmap.ext_lookup
    intro uuid
    rw [Finmap.lookup_empty, Finmap.lookup_eq_none, ← Finmap.mem_keys, h]
    exact Finset.notMem_empty uuid
  · intro h
    rw [h]
    rfl

theorem printSummary_eq_none_iff :
    t.printSummary = none ↔ ∃ uuid ch, t.channels.lookup uuid = some ch ∧ ch.Panics := by
  rw [printSummary]
  split
  · rename_i hempty
    refine iff_of_false (by simp) ?_
    rintro ⟨uuid, ch, hch, -⟩
    rw [keys_eq_empty_iff.mp hempty, Finmap.lookup_empty] at hch
    cases hch
  · rw [Option.map_eq_none_iff, mapM_eq_none_iff]
    constructor
    · rintro ⟨⟨uuid, ch⟩, hmem, hline⟩
      exact ⟨uuid, ch, mem_sorted.mp hmem, TrackedChannel.summaryLine_eq_none_iff.mp hline⟩
    · rintro ⟨uuid, ch, hch, hpanics⟩
      exact ⟨(uuid, ch), mem_sorted.mpr hch, TrackedChannel.summaryLine_eq_none_iff.mpr hpanics⟩

/-- The summary panics exactly when some channel has a text that a slice would cut; otherwise
it is a header and one line for every channel, in the order of the UUIDs. -/
theorem printSummary_exact (t : ChannelTracker) :
    (t.printSummary = none ↔ ∃ uuid ch, t.channels.lookup uuid = some ch ∧ ch.Panics) ∧
      ∀ lines, t.printSummary = some lines → t.channels ≠ ∅ →
        ∃ rows, lines = summaryHeader :: rows ∧
          List.Forall₂ (fun uuid row ↦ padded 36 uuid <+: row) t.channels.keys.sort rows := by
  refine ⟨printSummary_eq_none_iff, ?_⟩
  intro lines hlines hne
  rw [printSummary, if_neg (mt keys_eq_empty_iff.mp hne)] at hlines
  obtain ⟨rows, hrows, rfl⟩ := Option.map_eq_some_iff.mp hlines
  refine ⟨rows, rfl, ?_⟩
  rw [← map_fst_sorted, List.forall₂_map_left_iff]
  exact (mapM_eq_some_iff.mp hrows).imp fun p row h ↦
    TrackedChannel.padded_prefix_summaryLine h

theorem printSummary_exact_heldChannel :
    let held : TrackedChannel := ⟨HeaderMap.ofList
      [(EslEvent.HEADER_CHANNEL_CALL_STATE, "HELD".toList), (OTHER_LEG, "0123456789".toList)]⟩
    let t : ChannelTracker := ⟨Finmap.singleton "a".toList held, HeaderMap.empty⟩
    ∃ rows, t.printSummary = some (summaryHeader :: rows) ∧
      List.Forall₂ (fun uuid row ↦ padded 36 uuid <+: row) t.channels.keys.sort rows := by
  intro held t
  have hlookup : t.channels.lookup "a".toList = some held := Finmap.lookup_singleton_eq
  have hne : t.channels ≠ ∅ := by
    intro h
    rw [h, Finmap.lookup_empty] at hlookup
    cases hlookup
  have hline : held.summaryLine "a".toList ≠ none := by decide +kernel
  cases hsummary : t.printSummary with
  | none =>
      obtain ⟨uuid, ch, hch, hpanics⟩ := printSummary_eq_none_iff.mp hsummary
      have hmem : uuid ∈ t.channels := Finmap.mem_of_lookup_eq_some hch
      have huuid : uuid = "a".toList := (Finmap.mem_singleton _ _ _).mp hmem
      rw [huuid, hlookup] at hch
      obtain rfl := Option.some.inj hch
      exact absurd (TrackedChannel.summaryLine_eq_none_iff.mpr hpanics) hline
  | some lines =>
      obtain ⟨rows, rfl, hrows⟩ := (printSummary_exact t).2 lines hsummary hne
      exact ⟨rows, rfl, hrows⟩

end ChannelTracker

end FreeswitchEsl.Tracker
