import FreeswitchEsl.EslArray
import FreeswitchEsl.Protocol.Formats

/-!
# Multipart bodies in header values

A SIP body with several parts comes in a header, an array whose items are a type and the
data behind it.  Parts that are pushed on a header come back from the wire in order.
-/

namespace FreeswitchEsl

open Text

structure MultipartItem where
  mimeType : Str
  data : Str
  deriving DecidableEq

structure MultipartBody where
  items : List MultipartItem
  deriving DecidableEq

namespace MultipartBody

/-- An entry without a colon is no part. -/
def readEntry (entry : Str) : Option MultipartItem :=
  (splitOnce ':' entry).map fun p ↦ ⟨p.1, p.2⟩

def parse (s : Str) : Option MultipartBody :=
  (EslArray.parse s).map fun array ↦ ⟨array.items.filterMap readEntry⟩

def byMimeType (body : MultipartBody) (mime : Str) : List Str :=
  (body.items.filter fun item ↦ decide (item.mimeType = mime)).map MultipartItem.data

/-! ## Parts of a type -/

theorem stripPrefix_eq_some_iff {entry mime data : Str} (h : ':' ∉ mime) :
    stripPrefix (mime ++ [':']) entry = some data ↔ splitOnce ':' entry = some (mime, data) := by
  constructor
  · intro hstrip
    rw [stripPrefix_eq_some hstrip, List.append_assoc, List.singleton_append, splitOnce_append h]
  · intro hsplit
    have hentry : entry = (mime ++ [':']) ++ data := by
      rw [(splitOnce_eq_some hsplit).1, List.append_assoc, List.singleton_append]
    rw [hentry, stripPrefix_append]

/-- The data of a type stand behind its name in the entries. -/
theorem byMimeType_filterMap (entries : List Str) {mime : Str} (h : ':' ∉ mime) :
    byMimeType ⟨entries.filterMap readEntry⟩ mime =
      entries.filterMap (stripPrefix (mime ++ [':'])) := by
  induction entries with
  | nil => rfl
  | cons entry entries ih =>
      cases hsplit : splitOnce ':' entry with
      | none =>
          have hskip : readEntry entry = none := by rw [readEntry, hsplit, Option.map_none]
          have hnone : stripPrefix (mime ++ [':']) entry = none := by
            rw [Option.eq_none_iff_forall_ne_some]
            intro data hdata
            rw [stripPrefix_eq_some_iff h, hsplit] at hdata
            cases hdata
          rw [List.filterMap_cons_none hskip, List.filterMap_cons_none hnone, ih]
      | some p =>
          obtain ⟨m, data⟩ := p
          have hread : readEntry entry = some ⟨m, data⟩ := by
            rw [readEntry, hsplit, Option.map_some]
          rw [List.filterMap_cons_some hread]
          by_cases hm : m = mime
          · subst hm
            have hstrip := (stripPrefix_eq_some_iff h).mpr hsplit
            rw [List.filterMap_cons_some hstrip, ← ih]
            simp [byMimeType]
          · have hnone : stripPrefix (mime ++ [':']) entry = none := by
              rw [Option.eq_none_iff_forall_ne_some]
              intro other hother
              rw [stripPrefix_eq_some_iff h, hsplit] at hother
              exact hm (congrArg Prod.fst (Option.some.inj hother))
            rw [List.filterMap_cons_none hnone, ← ih]
            simp [byMimeType, hm]

end MultipartBody

/-! ## Over the wire -/

section Pushed

variable {e : EslEvent} {name : Str} {first : StackOp} {ops : List StackOp}

theorem cleanNames_foldl_apply (he : e.CleanNames)
    (hname : ':' ∉ name ∧ '\n' ∉ name ∧ Trimmed name) (ops : List StackOp) :
    (ops.foldl (StackOp.apply name) e).CleanNames := by
  intro other value hvalue
  by_cases heq : other = name
  · subst heq
    exact hname
  · rw [(frame_foldl_apply name e ops).1 other heq] at hvalue
    exact he other value hvalue

/-- Parts that are pushed on a header, in front or behind, are read back from the plain
format of the event in their order, and for each type with its data.  A header with a
single part is no array, and nothing is read from it. -/
theorem multipart_restored {X : Crates} (hX : X.PercentLaws) (order : HashOrder)
    (outer : HeaderMap) (he : e.CleanNames) (hbody : e.body ≠ some [])
    (hname : ':' ∉ name ∧ '\n' ∉ name ∧ Trimmed name) (hlength : name ≠ HEADER_CONTENT_LENGTH)
    (hnone : e.header name = none) (hfirst : ¬ ARRAY_HEADER <+: first.value)
    (hvalues : ∀ op ∈ first :: ops, ¬ ARRAY_SEPARATOR <:+: op.value) :
    ∃ e', parseEvent X ⟨.event, outer, some (EslEvent.toPlainFormat X order
        ((first :: ops).foldl (StackOp.apply name) e))⟩ .plain = .ok e' ∧
      (ops = [] → (e'.header name).bind MultipartBody.parse = none) ∧
        (ops ≠ [] → ∃ body, (e'.header name).bind MultipartBody.parse = some body ∧
          ∀ mime, ':' ∉ mime → body.byMimeType mime =
            ((first :: ops).foldl StackOp.onDeque []).filterMap
              (stripPrefix (mime ++ [':']))) := by
  obtain ⟨hone, hmany, -, hsame, -⟩ := @header_deque e name ops first hnone hfirst hvalues
  let sent := (first :: ops).foldl (StackOp.apply name) e
  have hsent : sent.body ≠ some [] := hsame ▸ hbody
  have hheader : ∀ e', e' = withEventName ⟨none, sent.plainHeaders, sent.body⟩ →
      e'.header name = sent.header name := by
    rintro _ rfl
    exact sent.restores_withEventName.header _ hlength
  refine ⟨_, parsePlainEvent_of_writesPlain hX (cleanNames_foldl_apply he hname _) hsent
    (sent.writesPlain_toPlainFormat X order) outer, ?_, ?_⟩
  · intro hops
    rw [hheader _ rfl, (hone hops).1, Option.bind_some, MultipartBody.parse,
      EslArray.parse_eq_none hfirst, Option.map_none]
  · intro hops
    obtain ⟨text, arr, htext, hparse, hitems⟩ := hmany hops
    rw [hheader _ rfl, htext, Option.bind_some, MultipartBody.parse, hparse]
    refine ⟨_, rfl, fun mime hmime ↦ ?_⟩
    rw [MultipartBody.byMimeType_filterMap _ hmime, hitems]

end Pushed

theorem multipart_restored_sdp :
    let ops : List StackOp := [.push "no colon".toList, .unshift "text/plain:a:b".toList]
    ∃ e' body, parseEvent .percentOnly ⟨.event, HeaderMap.empty,
        some (EslEvent.toPlainFormat .percentOnly .byName
          ((.push "application/sdp:v=0".toList :: ops).foldl
            (StackOp.apply "variable_sip_multipart".toList) (EslEvent.talk none)))⟩ .plain =
          .ok e' ∧
      (e'.header "variable_sip_multipart".toList).bind MultipartBody.parse = some body ∧
        body.byMimeType "text/plain".toList = ["a:b".toList] := by
  intro ops
  obtain ⟨e', hparse, -, hbody⟩ := @multipart_restored (EslEvent.talk none)
    "variable_sip_multipart".toList (.push "application/sdp:v=0".toList) ops .percentOnly
    Crates.percentOnly_percentLaws .byName HeaderMap.empty (EslEvent.cleanNames_talk none)
    (by decide) (by decide) (by decide) (by decide) (by decide) (by decide)
  obtain ⟨body, hread, htype⟩ := hbody (List.cons_ne_nil _ _)
  refine ⟨e', body, hparse, hread, ?_⟩
  rw [htype _ (by decide)]
  decide

end FreeswitchEsl
