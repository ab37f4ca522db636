import FreeswitchEsl.Tracker.Loop

/-!
# What the tracker knows

The tracker after any number of turns, told from the deliveries alone: which channels it
tracks, what it knows about each, and which dump goes where.
-/

namespace FreeswitchEsl.Tracker

open Text

variable {env : Env} {t t' t₀ : ChannelTracker} {d : Delivery} {ds : List Delivery}
  {uuid : Str}

/-! ## Channels that come and go -/

/-- Whether an event brings its channel up or takes it down. -/
def lifecycle (eventType : Option EslEventType) : Option Bool :=
  if eventType = some .channelCreate then some true
  else if eventType = some .channelDestroy then some false
  else none

/-- The same for one channel and what the stream yields. -/
def Delivery.lifecycle (uuid : Str) (d : Delivery) : Option Bool :=
  match d.result with
  | .error _ => none
  | .ok event => if event.uniqueId = some uuid then Tracker.lifecycle event.eventType else none

def Update.lifecycle : Update → Option Bool
  | event e => Tracker.lifecycle e.eventType
  | dump _ _ => none

theorem Update.isSome_act (up : Update) (ch : Option TrackedChannel) :
    (Update.act env up ch).isSome = up.lifecycle.getD ch.isSome := by
  cases up with
  | dump _ body => exact Option.isSome_map
  | event e =>
      unfold Update.act Update.lifecycle
      dsimp only
      split
      · rename_i htype
        rw [htype]
        rfl
      · rename_i htype
        rw [htype]
        rfl
      · rename_i htype
        rw [htype]
        exact Option.isSome_map
      · rename_i hcreate hdestroy _
        rw [Tracker.lifecycle, if_neg hcreate, if_neg hdestroy]
        exact Option.isSome_map

theorem isSome_step (env : Env) (s : Str → Option TrackedChannel) (up : Update) (uuid : Str) :
    ((channelMachine env).step s up uuid).isSome =
      (if up.uuid = some uuid then up.lifecycle else none).getD (s uuid).isSome := by
  rw [Keyed.step_apply]
  by_cases h : up.uuid = some uuid
  · rw [if_pos h, if_pos (show (channelMachine env).key up = some uuid from h)]
    exact up.isSome_act _
  · rw [if_neg h, if_neg (show (channelMachine env).key up ≠ some uuid from h)]
    rfl

theorem isSome_read_processEvent {event : EslEvent} (h : t.processEvent env event = some t')
    (uuid : Str) :
    (t'.read uuid).isSome =
      (if event.uniqueId = some uuid then lifecycle event.eventType else none).getD
        (t.read uuid).isSome := by
  rw [(ChannelTracker.processEvent_spec h).1, isSome_step, Update.uuid, Update.lifecycle]
  by_cases htype : event.eventType = none
  · simp [htype, lifecycle]
  · rw [if_neg htype]

theorem isSome_read_turn (h : t.turn env d = some t') (uuid : Str) :
    (t'.read uuid).isSome = (d.lifecycle uuid).getD (t.read uuid).isSome := by
  cases ChannelTracker.turn_cases h with
  | error e hresult ht => simp [ht, Delivery.lifecycle, hresult]
  | summary event hresult htype _ ht => simp [ht, Delivery.lifecycle, hresult, htype, lifecycle]
  | job event hresult htype _ =>
      have hnone : d.lifecycle uuid = none := by
        simp [Delivery.lifecycle, hresult, htype, lifecycle]
      rw [hnone, ChannelTracker.read_turn h, ChannelTracker.updates, hresult]
      simp only [htype]
      split
      · rename_i channel body _ _
        have hstep := isSome_step env t.read (.dump channel body) uuid
        rw [Update.lifecycle, ite_self] at hstep
        exact hstep
      · rfl
  | create event u _ hresult htype huuid hu hrequest =>
      rw [(ChannelTracker.requestDump_spec hrequest).1, isSome_read_processEvent hu,
        Delivery.lifecycle, hresult]
  | event event hresult _ _ _ hprocess =>
      rw [isSome_read_processEvent hprocess, Delivery.lifecycle, hresult]

theorem isSome_read_of_run (h : Transition.run (ChannelTracker.turn env) t₀ ds = some t)
    (uuid : Str) :
    (t.read uuid).isSome =
      (Keyed.lastFixed (Delivery.lifecycle uuid) ds).getD (t₀.read uuid).isSome :=
  Keyed.view_of_run (fun t : ChannelTracker ↦ (t.read uuid).isSome)
    (fun _ _ _ hstep ↦ isSome_read_turn hstep uuid) h

theorem getD_false_iff {b : Option Bool} : b.getD false = true ↔ b = some true := by
  cases b with
  | none => exact iff_of_false Bool.false_ne_true (fun h ↦ by cases h)
  | some b => exact ⟨congrArg some, Option.some.inj⟩

/-- A surrounding with the published percent coding, and log lines written. -/
def Env.published : Env :=
  ⟨.percentOnly, fun s ↦ (Crates.percentOnly.percentDecodeUtf8 s).getD s, .byName, .info⟩

/-- An event about a channel, with one more header. -/
def channelEvent (eventType : EslEventType) (uuid name value : String) : EslEvent :=
  ⟨some eventType, HeaderMap.ofList [(EslEvent.HEADER_UNIQUE_ID, uuid.toList),
    (name.toList, value.toList)], none⟩

/-- Two channels come up, the dump of the first arrives, and the second goes. -/
def twoChannels : List Delivery :=
  [⟨.ok (channelEvent .channelCreate "a" "Channel-Name" "x"),
      .ok ⟨HeaderMap.ofList [("Job-UUID".toList, "j".toList)], none⟩⟩,
   ⟨.ok (channelEvent .channelCreate "b" "Channel-Name" "y"), .error .notConnected⟩,
   ⟨.ok ⟨some .backgroundJob, HeaderMap.ofList [("Job-UUID".toList, "j".toList)],
      some "Channel-Name: z%21\n".toList⟩, .error .notConnected⟩,
   ⟨.ok (channelEvent .channelDestroy "b" "Hangup-Cause" "NORMAL_CLEARING"),
      .error .notConnected⟩]

theorem run_twoChannels (n : Nat) (h : n ≤ 4) :
    ∃ t, Transition.run (ChannelTracker.turn .published) .new (twoChannels.take n) = some t := by
  refine Option.isSome_iff_exists.mp ?_
  obtain rfl | rfl | rfl | rfl | rfl : n = 0 ∨ n = 1 ∨ n = 2 ∨ n = 3 ∨ n = 4 := by omega
  all_goals decide +kernel

/-- After any turns a channel is tracked exactly when the last event that created or destroyed
it created it. -/
theorem tracked_iff (h : Transition.run (ChannelTracker.turn env) .new ds = some t) (uuid : Str) :
    (t.read uuid).isSome ↔ Keyed.lastFixed (Delivery.lifecycle uuid) ds = some true := by
  rw [isSome_read_of_run h]
  exact getD_false_iff

theorem tracked_iff_twoChannels :
    ∃ t, Transition.run (ChannelTracker.turn .published) .new twoChannels = some t ∧
      ((t.read "b".toList).isSome ↔
        Keyed.lastFixed (Delivery.lifecycle "b".toList) twoChannels = some true) := by
  obtain ⟨t, ht⟩ := run_twoChannels 4 (by omega)
  exact ⟨t, ht, tracked_iff ht "b".toList⟩

/-! ## What is known about a channel -/

/-- The updates that the turns make, in order. -/
def history (env : Env) (t : ChannelTracker) (ds : List Delivery) : List Update :=
  Keyed.outputs (ChannelTracker.turn env) ChannelTracker.updates t ds

/-- The updates of one channel. -/
def historyOf (env : Env) (t : ChannelTracker) (ds : List Delivery) (uuid : Str) : List Update :=
  (channelMachine env).inputs (history env t ds) uuid

theorem read_of_run (h : Transition.run (ChannelTracker.turn env) t₀ ds = some t) (uuid : Str) :
    t.read uuid = (channelMachine env).cell (t₀.read uuid) (historyOf env t₀ ds uuid) := by
  have hread : t.read = (channelMachine env).run t₀.read (history env t₀ ds) :=
    Keyed.read_of_run (fun _ _ _ hstep ↦ ChannelTracker.read_turn hstep) h
  rw [hread, Keyed.run_apply]
  rfl

/-- What an update says about a header of its channel: its value, its absence, or nothing. -/
def Update.tells (env : Env) (name : Str) : Update → Option (Option Str)
  | event e =>
      if e.eventType = some .channelCreate then some (e.header name)
      else if e.eventType = some .channelDestroy then some none
      else if e.eventType = some .channelUnbridge ∧ name = ChannelTracker.OTHER_LEG then some none
      else (e.header name).map some
  | dump _ body =>
      ((HeaderMap.ofList ((lines body).filterMap (TrackedChannel.dumpLine env))).get name).map some

theorem get_updateFromEvent (ch : TrackedChannel) (e : EslEvent) (name : Str) :
    (ch.updateFromEvent env e).get name = (e.header name).or (ch.get name) := by
  have hget := HeaderMap.get_foldl_insert (env.order.entries e.headers) ch.data name
  rwa [env.order.ofList_entries] at hget

theorem get_updateFromDump (ch : TrackedChannel) (body name : Str) :
    (ch.updateFromDump env body).get name =
      ((HeaderMap.ofList ((lines body).filterMap (TrackedChannel.dumpLine env))).get name).or
        (ch.get name) :=
  HeaderMap.get_foldl_insert _ ch.data name

theorem getD_map_some {α : Type} (a b : Option α) : (a.map some).getD b = a.or b := by
  cases a <;> rfl

/-- On a channel that stays, an update leaves the headers as it tells. -/
theorem get_act (up : Update) (ch : Option TrackedChannel) (name : Str)
    (halive : (Update.act env up ch).isSome) :
    (Update.act env up ch).bind (fun ch ↦ ch.get name) =
      (up.tells env name).getD (ch.bind fun ch ↦ ch.get name) := by
  cases up with
  | dump _ body =>
      obtain ⟨c, rfl⟩ : ∃ c, ch = some c := Option.isSome_iff_exists.mp (by
        simpa [Update.act] using halive)
      rw [Update.tells, getD_map_some]
      exact get_updateFromDump c body name
  | event e =>
      unfold Update.act at halive ⊢
      unfold Update.tells
      dsimp only at halive ⊢
      split
      · rename_i htype
        rw [htype, if_pos rfl, Option.getD_some]
        refine (get_updateFromEvent .new e name).trans ?_
        exact Option.or_none
      · rename_i htype
        simp [htype] at halive
      · rename_i htype
        simp only [htype, Option.isSome_map] at halive
        obtain ⟨c, rfl⟩ := Option.isSome_iff_exists.mp halive
        rw [htype, if_neg (by decide), if_neg (by decide)]
        by_cases hname : name = ChannelTracker.OTHER_LEG
        · rw [if_pos ⟨rfl, hname⟩, hname]
          exact Finmap.lookup_erase _ _
        · rw [if_neg fun h ↦ hname h.2, getD_map_some]
          exact (Finmap.lookup_erase_ne hname).trans (get_updateFromEvent c e name)
      · rename_i hcreate hdestroy hunbridge
        simp only [Option.isSome_map] at halive
        obtain ⟨c, rfl⟩ := Option.isSome_iff_exists.mp halive
        rw [if_neg hcreate, if_neg hdestroy, if_neg fun h ↦ hunbridge h.1, getD_map_some]
        exact get_updateFromEvent c e name

theorem isSome_of_tells_eq_none {up : Update} {ch : Option TrackedChannel} {name : Str}
    (hnone : up.tells env name = none) (halive : (Update.act env up ch).isSome) : ch.isSome := by
  have hlifecycle : up.lifecycle = none := by
    cases up with
    | dump _ body => rfl
    | event e =>
        unfold Update.tells at hnone
        dsimp only at hnone
        split at hnone
        · cases hnone
        · split at hnone
          · cases hnone
          · rename_i hcreate hdestroy
            rw [Update.lifecycle, lifecycle, if_neg hcreate, if_neg hdestroy]
  rwa [Update.isSome_act, hlifecycle] at halive

/-- A tracked channel is what its own updates made of it, in their order and whatever came in
between; a header has the value that the last update that told about it gave. -/
theorem channel_exact (h : Transition.run (ChannelTracker.turn env) .new ds = some t) (uuid : Str) :
    t.read uuid = (channelMachine env).cell none (historyOf env .new ds uuid) ∧
      ∀ ch name, t.read uuid = some ch →
        ch.get name =
          (Keyed.lastFixed (Update.tells env name) (historyOf env .new ds uuid)).getD none := by
  have hread : t.read uuid = (channelMachine env).cell none (historyOf env .new ds uuid) :=
    read_of_run h uuid
  refine ⟨hread, ?_⟩
  intro ch name hch
  have halive : ((channelMachine env).cell none (historyOf env .new ds uuid)).isSome := by
    rw [← hread, hch]
    rfl
  have hview := Keyed.view_cell (fun ch : Option TrackedChannel ↦ ch.bind fun ch ↦ ch.get name)
    (fun ch ↦ ch.isSome) (fun up ch ↦ get_act up ch name)
    (fun up ch ↦ isSome_of_tells_eq_none) halive
  rw [← hread, hch] at hview
  exact hview

theorem channel_exact_twoChannels :
    ∃ t, Transition.run (ChannelTracker.turn .published) .new twoChannels = some t ∧
      t.read "a".toList = (channelMachine .published).cell none
        (historyOf .published .new twoChannels "a".toList) ∧
      ∀ ch name, t.read "a".toList = some ch →
        ch.get name = (Keyed.lastFixed (Update.tells .published name)
          (historyOf .published .new twoChannels "a".toList)).getD none := by
  obtain ⟨t, ht⟩ := run_twoChannels 4 (by omega)
  exact ⟨t, ht, channel_exact ht "a".toList⟩

/-! ## Where the dumps go -/

theorem get_pendingDumps_of_run (h : Transition.run (ChannelTracker.turn env) .new ds = some t)
    (job : Str) :
    t.pendingDumps.get job = (Keyed.lastFixed (Delivery.dumpEntry job) ds).getD none := by
  have hview : t.pendingDumps.get job = (Keyed.lastFixed (Delivery.dumpEntry job) ds).getD
      (ChannelTracker.new.pendingDumps.get job) :=
    Keyed.view_of_run (fun t : ChannelTracker ↦ t.pendingDumps.get job)
      (fun _ _ _ hstep ↦ ChannelTracker.get_pendingDumps_turn hstep job) h
  exact hview

theorem updates_eq_dump_iff {channel body : Str} :
    t.updates d = [.dump channel body] ↔
      ∃ event job, d.result = .ok event ∧ event.eventType = some .backgroundJob ∧
        event.jobUuid = some job ∧ event.body = some body ∧
          t.pendingDumps.get job = some channel := by
  constructor
  · intro h
    unfold ChannelTracker.updates at h
    split at h
    · cases h
    · rename_i event hresult
      split at h
      · cases h
      · rename_i htype
        split at h
        · rename_i channel' body' hpending hbody
          obtain ⟨job, hjob, hpending⟩ := Option.bind_eq_some_iff.mp hpending
          obtain ⟨rfl, rfl⟩ : channel' = channel ∧ body' = body := by simpa using h
          exact ⟨event, job, hresult, htype, hjob, hbody, hpending⟩
        · cases h
      · cases h
  · rintro ⟨event, job, hresult, htype, hjob, hbody, hpending⟩
    simp only [ChannelTracker.updates, hresult, htype, hjob, hbody, Option.bind_some, hpending]

/-- A dump is applied exactly when it answers a job whose last mention was the request for that
channel: never to another channel, and never twice for one request. -/
theorem dump_applied_iff (h : Transition.run (ChannelTracker.turn env) .new ds = some t)
    (d : Delivery) (channel body : Str) :
    t.updates d = [.dump channel body] ↔
      ∃ event job, d.result = .ok event ∧ event.eventType = some .backgroundJob ∧
        event.jobUuid = some job ∧ event.body = some body ∧
          Keyed.lastFixed (Delivery.dumpEntry job) ds = some (some channel) := by
  rw [updates_eq_dump_iff]
  refine exists_congr fun event ↦ exists_congr fun job ↦ ?_
  rw [get_pendingDumps_of_run h]
  cases Keyed.lastFixed (Delivery.dumpEntry job) ds <;> simp

theorem dump_applied_iff_twoChannels :
    ∃ t d, Transition.run (ChannelTracker.turn .published) .new (twoChannels.take 2) = some t ∧
      twoChannels[2]? = some d ∧
        (t.updates d = [.dump "a".toList "Channel-Name: z%21\n".toList] ↔
          ∃ event job, d.result = .ok event ∧ event.eventType = some .backgroundJob ∧
            event.jobUuid = some job ∧ event.body = some "Channel-Name: z%21\n".toList ∧
              Keyed.lastFixed (Delivery.dumpEntry job) (twoChannels.take 2) =
                some (some "a".toList)) := by
  obtain ⟨t, ht⟩ := run_twoChannels 2 (by omega)
  exact ⟨t, _, ht, rfl, dump_applied_iff ht _ _ _⟩

end FreeswitchEsl.Tracker
