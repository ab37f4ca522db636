import FreeswitchEsl.Tracker.History

/-!
# Bootstrapping the tracker

The tracker subscribes, takes a snapshot of the channels and then reads the events since the
subscription.  The end of the log before the snapshot is seen twice, and does no harm.
-/

namespace FreeswitchEsl.Tracker

open Text

/-! ## Starting up -/

/-- Ask for the dump of every channel found, with the reply to each command. -/
def requestDumps (env : Env) (t : ChannelTracker) (asked : List (Str × EslResult EslResponse)) :
    Option ChannelTracker :=
  Transition.run (fun t p ↦ t.requestDump env p.1 p.2) t asked

/-- What the tracker makes of the reply to `show channels as json`. -/
def startUp (env : Env) (reply : EslResult EslResponse)
    (replies : List (EslResult EslResponse)) : Option ChannelTracker :=
  match reply with
  | .error _ => some .new
  | .ok response =>
      match response.body with
      | none => some .new
      | some body =>
          (ChannelTracker.new.bootstrap env body).bind fun p ↦
            requestDumps env p.1 (p.2.zip replies)

/-- The UUID of a row, when it is a text that is not empty. -/
def rowUuid (row : JsonValue) : Option Str :=
  ((row.get "uuid".toList).bind JsonValue.asStr).filter fun uuid ↦ decide (uuid ≠ [])

variable {env : Env} {t t' t₀ : ChannelTracker} {row : JsonValue} {rows : List JsonValue}
  {uuids uuids' : List Str} {event : EslEvent} {uuid : Str}

/-! ## Rows -/

theorem eventType_setFromRow (row : JsonValue) (event : EslEvent) (entry : String × String) :
    (setFromRow row event entry).eventType = event.eventType := by
  unfold setFromRow
  split
  · split <;> rfl
  · rfl

theorem header_setFromRow_of_ne {entry : String × String} {name : Str}
    (h : name ≠ entry.2.toList) :
    (setFromRow row event entry).header name = event.header name := by
  unfold setFromRow
  split
  · split
    · rfl
    · exact EslEvent.header_setHeader_of_ne _ _ h
  · rfl

theorem foldl_setFromRow {entries : List (String × String)} {name : Str}
    (h : ∀ entry ∈ entries, name ≠ entry.2.toList) :
    (entries.foldl (setFromRow row) event).eventType = event.eventType ∧
      (entries.foldl (setFromRow row) event).header name = event.header name := by
  induction entries generalizing event with
  | nil => exact ⟨rfl, rfl⟩
  | cons entry entries ih =>
      obtain ⟨htype, hheader⟩ := @ih (setFromRow row event entry) fun e he ↦
        h e (List.mem_cons_of_mem _ he)
      rw [List.foldl_cons, htype, hheader, eventType_setFromRow,
        header_setFromRow_of_ne (h entry List.mem_cons_self)]
      exact ⟨rfl, rfl⟩

/-- A row makes an event of its UUID; without a usable one the event belongs to no channel. -/
theorem fakeChannelCreate_cases (row : JsonValue) :
    (fakeChannelCreate row = none ∧ rowUuid row = none) ∨
      ∃ event, fakeChannelCreate row = some event ∧ event.eventType = some .channelCreate ∧
        event.uniqueId = rowUuid row := by
  unfold fakeChannelCreate rowUuid
  cases hget : row.get "uuid".toList with
  | none => exact Or.inl ⟨rfl, rfl⟩
  | some value =>
      rw [Option.bind_some]
      cases hstr : value.asStr with
      | none => exact Or.inl ⟨rfl, rfl⟩
      | some uuid =>
          let start : EslEvent := ⟨some .channelCreate, HeaderMap.empty, none⟩
          have hother : ∀ name, name = EslEvent.HEADER_UNIQUE_ID ∨
              name = EslEvent.HEADER_CALLER_UUID →
                ∀ entry ∈ DB_TO_EVENT.tail, name ≠ entry.2.toList := by
            rintro name (rfl | rfl) <;> decide
          have hfirst : setFromRow row start ("uuid", "Unique-ID") =
              if uuid = [] then start else start.setHeader EslEvent.HEADER_UNIQUE_ID uuid := by
            simp only [setFromRow, hget, hstr, Option.bind_some]
            rfl
          have hfold : DB_TO_EVENT.foldl (setFromRow row) start =
              DB_TO_EVENT.tail.foldl (setFromRow row)
                (setFromRow row start ("uuid", "Unique-ID")) := by
            have hcons : DB_TO_EVENT = ("uuid", "Unique-ID") :: DB_TO_EVENT.tail := rfl
            calc DB_TO_EVENT.foldl (setFromRow row) start
                = (("uuid", "Unique-ID") :: DB_TO_EVENT.tail).foldl (setFromRow row) start :=
                  congrArg (List.foldl (setFromRow row) start) hcons
              _ = _ := List.foldl_cons
          refine Or.inr ⟨DB_TO_EVENT.foldl (setFromRow row) start, rfl, ?_, ?_⟩
          · rw [hfold, (foldl_setFromRow (hother _ (Or.inl rfl))).1, eventType_setFromRow]
          · rw [EslEvent.uniqueId, hfold, (foldl_setFromRow (hother _ (Or.inl rfl))).2,
              (foldl_setFromRow (hother _ (Or.inr rfl))).2, hfirst]
            by_cases huuid : uuid = []
            · rw [if_pos huuid, huuid]
              rfl
            · rw [if_neg huuid, EslEvent.header_setHeader_self, Option.some_or]
              simp [Option.filter, huuid]

/-! ## The snapshot -/

theorem isSome_read_bootstrapRow {p p' : ChannelTracker × List Str}
    (h : ChannelTracker.bootstrapRow env p row = some p') :
    p'.2 = p.2 ++ (rowUuid row).toList ∧ p'.1.pendingDumps = p.1.pendingDumps ∧
      ∀ uuid, (p'.1.read uuid).isSome =
        ((p.1.read uuid).isSome || decide (rowUuid row = some uuid)) := by
  unfold ChannelTracker.bootstrapRow at h
  rcases fakeChannelCreate_cases row with ⟨hrow, huuid⟩ | ⟨event, hrow, htype, huuid⟩
  · rw [hrow] at h
    obtain rfl := Option.some.inj h
    simp [huuid]
  · rw [hrow] at h
    obtain ⟨u, hu, rfl⟩ := Option.map_eq_some_iff.mp h
    refine ⟨by rw [huuid], (ChannelTracker.processEvent_spec hu).2, ?_⟩
    intro uuid
    rw [isSome_read_processEvent hu, huuid, htype]
    by_cases hsame : rowUuid row = some uuid
    · simp [hsame, lifecycle]
    · simp [hsame]

theorem isSome_read_bootstrapRows {p p' : ChannelTracker × List Str}
    (h : Transition.run (ChannelTracker.bootstrapRow env) p rows = some p') :
    p'.2 = p.2 ++ rows.filterMap rowUuid ∧ p'.1.pendingDumps = p.1.pendingDumps ∧
      ∀ uuid, (p'.1.read uuid).isSome =
        ((p.1.read uuid).isSome || decide (uuid ∈ rows.filterMap rowUuid)) := by
  induction rows generalizing p with
  | nil =>
      obtain rfl : p = p' := Option.some.inj h
      simp
  | cons row rows ih =>
      obtain ⟨q, hq, hrest⟩ := Transition.run_cons_eq_some.mp h
      obtain ⟨huuids, hpending, hread⟩ := isSome_read_bootstrapRow hq
      obtain ⟨huuids', hpending', hread'⟩ := ih hrest
      refine ⟨?_, hpending'.trans hpending, ?_⟩
      · rw [huuids', huuids, List.append_assoc]
        cases hrow : rowUuid row <;> simp [hrow]
      · intro uuid
        rw [hread', hread, Bool.or_assoc]
        cases hrow : rowUuid row with
        | none => simp [hrow]
        | some u => simp [hrow, eq_comm]

/-- Asking for dumps does not change what is tracked. -/
theorem read_requestDumps {asked : List (Str × EslResult EslResponse)}
    (h : requestDumps env t asked = some t') : t'.read = t.read :=
  Transition.invariant_of_run (I := fun s ↦ s.read = t.read)
    (fun _ _ _ hs hstep ↦ (ChannelTracker.requestDump_spec hstep).1.trans hs) rfl h

theorem isSome_read_startUp {response : EslResponse} {replies : List (EslResult EslResponse)}
    {body : Str} {json : JsonValue} (hbody : response.body = some body)
    (hjson : env.crates.jsonFromStr body = .ok json)
    (hrows : (json.get "rows".toList).bind JsonValue.asArray = some rows)
    (h : startUp env (.ok response) replies = some t) (uuid : Str) :
    (t.read uuid).isSome ↔ ∃ row ∈ rows, rowUuid row = some uuid := by
  simp only [startUp, hbody] at h
  obtain ⟨p, hp, hdumps⟩ := Option.bind_eq_some_iff.mp h
  simp only [ChannelTracker.bootstrap, hjson, hrows] at hp
  rw [read_requestDumps hdumps, (isSome_read_bootstrapRows hp).2.2 uuid]
  change (false || decide (uuid ∈ rows.filterMap rowUuid)) = true ↔ _
  rw [Bool.false_or, decide_eq_true_iff, List.mem_filterMap]

/-- The tracker that starts from a snapshot and sees the end of the log before the snapshot once
more tracks in the end what a tracker of the whole log would: nothing is lost between the
subscription and the snapshot, and what the snapshot knew already does no harm. -/
theorem bootstrap_converges {response : EslResponse} {replies : List (EslResult EslResponse)}
    {body : Str} {json : JsonValue} {before again after : List Delivery}
    (hbody : response.body = some body) (hjson : env.crates.jsonFromStr body = .ok json)
    (hrows : (json.get "rows".toList).bind JsonValue.asArray = some rows)
    (hsnapshot : ∀ uuid, (∃ row ∈ rows, rowUuid row = some uuid) ↔
      Keyed.lastFixed (Delivery.lifecycle uuid) (before ++ again) = some true)
    (hstart : startUp env (.ok response) replies = some t₀)
    (hrun : Transition.run (ChannelTracker.turn env) t₀ (again ++ after) = some t) (uuid : Str) :
    (t.read uuid).isSome ↔
      Keyed.lastFixed (Delivery.lifecycle uuid) (before ++ again ++ after) = some true := by
  have hsnap : (t₀.read uuid).isSome =
      (Keyed.lastFixed (Delivery.lifecycle uuid) (before ++ again)).getD false := by
    rw [Bool.eq_iff_iff, isSome_read_startUp hbody hjson hrows hstart, hsnapshot, getD_false_iff]
  rw [isSome_read_of_run hrun, hsnap, Keyed.lastFixed_replay, getD_false_iff]

/-- A snapshot with the row of one channel. -/
def oneRow : JsonValue :=
  .object [("rows".toList, .array [.object [("uuid".toList, .string "a".toList),
    ("state".toList, .string "CS_EXECUTE".toList)]])]

/-- The channel came up before the subscription, another one between it and the snapshot, to go
before the snapshot was taken. -/
theorem bootstrap_converges_oneRow :
    let env : Env := { Env.published with crates := .knowing "rows".toList oneRow [] [] }
    let before : List Delivery :=
      [⟨.ok (channelEvent .channelCreate "a" "Channel-Name" "x"), .error .notConnected⟩]
    let again : List Delivery :=
      [⟨.ok (channelEvent .channelCreate "b" "Channel-Name" "y"), .error .notConnected⟩,
       ⟨.ok (channelEvent .channelDestroy "b" "Channel-Name" "y"), .error .notConnected⟩]
    let after : List Delivery :=
      [⟨.ok (channelEvent .channelHangup "a" "Hangup-Cause" "USER_BUSY"), .error .notConnected⟩]
    ∃ t₀ t, startUp env (.ok ⟨HeaderMap.empty, some "rows".toList⟩) [.error .notConnected] =
        some t₀ ∧
      Transition.run (ChannelTracker.turn env) t₀ (again ++ after) = some t ∧
        ((t.read "a".toList).isSome ↔
          Keyed.lastFixed (Delivery.lifecycle "a".toList) (before ++ again ++ after) =
            some true) := by
  intro env before again after
  have hstarts : (startUp env (.ok ⟨HeaderMap.empty, some "rows".toList⟩)
      [.error .notConnected]).isSome := by decide +kernel
  obtain ⟨t₀, hstart⟩ := Option.isSome_iff_exists.mp hstarts
  have hruns : ((startUp env (.ok ⟨HeaderMap.empty, some "rows".toList⟩)
      [.error .notConnected]).bind fun t₀ ↦
        Transition.run (ChannelTracker.turn env) t₀ (again ++ after)).isSome := by decide +kernel
  rw [hstart, Option.bind_some] at hruns
  obtain ⟨t, hrun⟩ := Option.isSome_iff_exists.mp hruns
  refine ⟨t₀, t, hstart, hrun, bootstrap_converges rfl (Crates.jsonFromStr_knowing _ _ _ _) rfl ?_
    hstart hrun "a".toList⟩
  intro uuid
  have hrow : (∃ row ∈ [JsonValue.object [("uuid".toList, .string "a".toList),
      ("state".toList, .string "CS_EXECUTE".toList)]], rowUuid row = some uuid) ↔
        uuid = "a".toList := by
    have huuid : rowUuid (.object [("uuid".toList, .string "a".toList),
        ("state".toList, .string "CS_EXECUTE".toList)]) = some "a".toList := by decide +kernel
    constructor
    · rintro ⟨row, hmem, h⟩
      obtain rfl := List.mem_singleton.mp hmem
      exact Option.some.inj (h.symm.trans huuid)
    · rintro rfl
      exact ⟨_, List.mem_singleton_self _, huuid⟩
  refine hrow.trans ?_
  by_cases ha : uuid = "a".toList
  · subst ha
    exact iff_of_true rfl (by decide +kernel)
  · refine iff_of_false ha ?_
    by_cases hb : uuid = "b".toList
    · subst hb
      decide +kernel
    · have hnone : Keyed.lastFixed (Delivery.lifecycle uuid) (before ++ again) = none := by
        refine Keyed.lastFixed_eq_none_iff.mpr ?_
        have hids : ∀ d ∈ before ++ again, ∃ e, d.result = .ok e ∧
            (e.uniqueId = some "a".toList ∨ e.uniqueId = some "b".toList) := by
          simp only [before, again, List.cons_append, List.nil_append, List.forall_mem_cons]
          exact ⟨⟨_, rfl, by decide +kernel⟩, ⟨_, rfl, by decide +kernel⟩,
            ⟨_, rfl, by decide +kernel⟩, by simp⟩
        intro d hd
        obtain ⟨e, hresult, hid⟩ := hids d hd
        rw [Delivery.lifecycle, hresult]
        rcases hid with hid | hid
        · exact if_neg fun h ↦ ha (Option.some.inj (h.symm.trans hid))
        · exact if_neg fun h ↦ hb (Option.some.inj (h.symm.trans hid))
      rw [hnone]
      exact fun h ↦ by cases h

end FreeswitchEsl.Tracker
