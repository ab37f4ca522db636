import FreeswitchEsl.Tracker.History

/-!
# Reading a dump

The tracker reads the body of a `uuid_dump` on its own, without the parser of events: it
splits lines at the first colon with a blank behind it and decodes the values.
-/

namespace FreeswitchEsl.Tracker

open Text

variable {env : Env}

theorem stripLineEnding_newline {l : Str} (h : l.getLast? ≠ some '\r') :
    stripLineEnding (l ++ ['\n']) = l := by
  have hlast : (l ++ ['\n']).getLast? = some '\n' := List.getLast?_concat
  rw [stripLineEnding, if_pos hlast, List.dropLast_concat]
  exact if_neg h

theorem lines_flatMap {ls : List Str} (h : ∀ l ∈ ls, '\n' ∉ l ∧ l.getLast? ≠ some '\r')
    (rest : Str) : lines ((ls.flatMap fun l ↦ l ++ ['\n']) ++ rest) = ls ++ lines rest := by
  induction ls with
  | nil => rfl
  | cons l ls ih =>
      obtain ⟨hnewline, hreturn⟩ := h l List.mem_cons_self
      have hrest := ih fun m hm ↦ h m (List.mem_cons_of_mem _ hm)
      rw [List.flatMap_cons, List.append_assoc, List.append_assoc, List.singleton_append, lines,
        splitInclusive_append hnewline, List.map_cons, stripLineEnding_newline hreturn,
        List.cons_append, ← hrest]
      rfl

theorem plainLine_clean (hX : env.crates.PercentLaws) {p : Str × Str} (hname : '\n' ∉ p.1) :
    '\n' ∉ plainLine env.crates p ∧ (plainLine env.crates p).getLast? ≠ some '\r' := by
  have hencoded : ∀ c ∈ env.crates.percentEncode p.2, c ≠ '\n' ∧ c ≠ '\r' := by
    intro c hc
    rcases hX.mem_encode p.2 c hc with halnum | rfl
    · constructor <;> rintro rfl <;> cases halnum
    · decide
  constructor
  · intro hmem
    rw [plainLine, List.mem_append, List.mem_append] at hmem
    rcases hmem with (hmem | hmem) | hmem
    · exact hname hmem
    · exact absurd hmem (by decide)
    · exact (hencoded _ hmem).1 rfl
  · intro hlast
    rw [plainLine, List.getLast?_append] at hlast
    cases henc : (env.crates.percentEncode p.2).getLast? with
    | none =>
        rw [henc, Option.none_or, List.getLast?_append] at hlast
        cases hlast
    | some c =>
        rw [henc, Option.some_or] at hlast
        exact (hencoded c (List.mem_of_getLast? henc)).2 (Option.some.inj hlast)

/-- The name is what stands before the first colon with a blank behind it. -/
theorem dumpLine_plainLine (hX : env.crates.PercentLaws) (hlossy : env.LossyAgrees)
    {p : Str × Str} (hname : ':' ∉ p.1) :
    TrackedChannel.dumpLine env (plainLine env.crates p) = some p := by
  have hinfix : ¬ ": ".toList <:+: p.1 := by
    rintro ⟨s, t, heq⟩
    exact hname (heq ▸ List.mem_append_left _ (List.mem_append_right _ List.mem_cons_self))
  have hfind : Pattern.find ": ".toList (plainLine env.crates p) = some p.1.length := by
    rw [plainLine, List.append_assoc]
    refine Pattern.find_append_pattern (by decide) (fun j hocc ↦ ?_) _
    have hocc' := (Pattern.exists_occursAt_iff (by decide)).mp ⟨j, hocc⟩
    exact Pattern.not_infix_append_dropLast (by decide) (by decide) hinfix hocc'
  have hvalue : env.percentDecodeLossy (env.crates.percentEncode p.2) = p.2 :=
    hlossy _ _ (hX.decode_encode p.2)
  have hdrop : (plainLine env.crates p).drop (p.1.length + 2) = env.crates.percentEncode p.2 := by
    have hlength : p.1.length + 2 = (p.1 ++ ": ".toList).length := by
      rw [List.length_append]
      rfl
    rw [plainLine, hlength, List.drop_left]
  have htake : (plainLine env.crates p).take p.1.length = p.1 := by
    rw [plainLine, List.append_assoc, List.take_left]
  rw [TrackedChannel.dumpLine, hfind, Option.map_some, htake, hdrop, hvalue]

/-- A dump in plain format gives the channel every header of the event behind it, decoded, and
leaves the others alone. -/
theorem dump_restores (hX : env.crates.PercentLaws) (hlossy : env.LossyAgrees) (order : HashOrder)
    {e : EslEvent} (hnames : e.CleanNames) (hbody : e.body = none) (ch : TrackedChannel)
    (name : Str) :
    (ch.updateFromDump env (e.toPlainFormat env.crates order)).get name =
      if name = HEADER_CONTENT_LENGTH then ch.get name else (e.header name).or (ch.get name) := by
  have hclean : ∀ p ∈ e.writtenEntries order, ':' ∉ p.1 ∧ '\n' ∉ p.1 := by
    rintro ⟨key, value⟩ hp
    have hvalue := EslEvent.mem_entries_iff.mp (List.mem_append_left (e.lengthEntry) hp)
    obtain ⟨hcolon, hnewline, -⟩ := hnames.plainHeaders hvalue
    exact ⟨hcolon, hnewline⟩
  have hlines : (lines (e.toPlainFormat env.crates order)).filterMap
      (TrackedChannel.dumpLine env) = e.writtenEntries order := by
    have hempty : e.lengthEntry = [] := by rw [EslEvent.lengthEntry, hbody]; rfl
    have hlast : (lines ['\n']).filterMap (TrackedChannel.dumpLine env) = [] := rfl
    have hall : ∀ l ∈ (e.writtenEntries order).map (plainLine env.crates),
        '\n' ∉ l ∧ l.getLast? ≠ some '\r' := by
      intro l hl
      obtain ⟨p, hp, rfl⟩ := List.mem_map.mp hl
      exact plainLine_clean hX (hclean p hp).2
    rw [e.toPlainFormat_eq env.crates order, hempty, hbody, List.map_nil, List.append_nil,
      Option.getD_none, lines_flatMap hall, List.filterMap_append, hlast, List.append_nil,
      List.filterMap_map]
    have hsome : (e.writtenEntries order).filterMap
        (TrackedChannel.dumpLine env ∘ plainLine env.crates) =
          (e.writtenEntries order).filterMap some :=
      List.filterMap_congr fun p hp ↦ dumpLine_plainLine hX hlossy (hclean p hp).1
    rw [hsome, List.filterMap_some]
  have hheaders : HeaderMap.ofList (e.writtenEntries order) = e.plainHeaders := by
    have hempty : e.writtenEntries order ++ e.lengthEntry = e.writtenEntries order := by
      rw [EslEvent.lengthEntry, hbody]
      exact List.append_nil _
    apply HeaderMap.ext_get
    intro key
    apply Option.ext
    intro value
    rw [← @EslEvent.mem_entries_iff order, hempty]
    refine (HeaderMap.mem_iff_get_ofList (p := (key, value)) ?_).symm
    exact hempty ▸ e.nodup_entries order
  rw [get_updateFromDump, hlines, hheaders]
  split
  · rename_i hname
    rw [hname, e.plainHeaders_contentLength, hbody]
    rfl
  · rename_i hname
    rw [e.plainHeaders_of_ne hname]

theorem dump_restores_talk :
    let e := (EslEvent.talk none).setHeader "Caller-Caller-ID-Name".toList "Bob Lee".toList
    let ch : TrackedChannel := ⟨HeaderMap.empty.insert "Channel-Name".toList "x".toList⟩
    let dump := "Event-Name: TALK\nCaller-Caller-ID-Name: Bob%20Lee\n\n".toList
    e.toPlainFormat Env.published.crates .byName = dump ∧
      (ch.updateFromDump .published dump).get "Caller-Caller-ID-Name".toList =
          some "Bob Lee".toList ∧
        (ch.updateFromDump .published dump).get "Channel-Name".toList = some "x".toList := by
  intro e ch dump
  have hdump : e.toPlainFormat Env.published.crates .byName = dump := by decide +kernel
  have hlossy : Env.published.LossyAgrees := by
    intro s t h
    rw [Env.published]
    exact congrArg (fun decoded ↦ decoded.getD s) h
  have hnames : e.CleanNames := (EslEvent.cleanNames_talk none).setHeader (by decide) _
  have hget := dump_restores Crates.percentOnly_percentLaws hlossy .byName hnames rfl ch
  rw [hdump] at hget
  refine ⟨hdump, ?_, ?_⟩
  · rw [hget, if_neg (by decide), EslEvent.header_setHeader_self, Option.some_or]
  · rw [hget, if_neg (by decide)]
    decide +kernel

end FreeswitchEsl.Tracker
