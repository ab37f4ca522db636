import FreeswitchEsl.Tracker.Summary
import FreeswitchEsl.Lib.Keyed

/-!
# The main loop of the tracker

Every event that the stream yields is one turn of the loop.  What a turn does to the channels
is one update of one channel, so the channels are a keyed machine over the updates.
-/

namespace FreeswitchEsl.Tracker

open Text

/-! ## Turns -/

/-- What the stream yields, and the reply to the command that this turn may send. -/
structure Delivery where
  result : EslResult EslEvent
  reply : EslResult EslResponse

/-- The job of a dump that was accepted. -/
def replyJob : EslResult EslResponse → Option Str
  | .ok response => response.headers.get "Job-UUID".toList
  | .error _ => none

namespace ChannelTracker

/-- One turn, nothing when it panics. -/
def turn (env : Env) (t : ChannelTracker) (d : Delivery) : Option ChannelTracker :=
  match d.result with
  | .error _ => some t
  | .ok event =>
      match event.eventType with
      | some .heartbeat => t.printSummary.map fun _ ↦ t
      | some .backgroundJob => t.handleBackgroundJob env event
      | some .channelCreate =>
          match event.uniqueId with
          | some uuid => (t.processEvent env event).bind fun t ↦ t.requestDump env uuid d.reply
          | none => t.processEvent env event
      | _ => t.processEvent env event

end ChannelTracker

/-! ## Updates of a channel -/

inductive Update where
  | event (event : EslEvent)
  | dump (uuid body : Str)

variable (env : Env)

def Update.uuid : Update → Option Str
  | event e => if e.eventType = none then none else e.uniqueId
  | dump uuid _ => some uuid

/-- What an update makes of its channel, present or not. -/
def Update.act : Update → Option TrackedChannel → Option TrackedChannel
  | event e, ch =>
      match e.eventType with
      | some .channelCreate => some (TrackedChannel.new.updateFromEvent env e)
      | some .channelDestroy => none
      | some .channelUnbridge =>
          ch.map fun ch ↦ ⟨(ch.updateFromEvent env e).data.erase ChannelTracker.OTHER_LEG⟩
      | _ => ch.map fun ch ↦ ch.updateFromEvent env e
  | dump _ body, ch => ch.map fun ch ↦ ch.updateFromDump env body

theorem Update.act_of_other {env : Env} {e : EslEvent} {type : EslEventType}
    (htype : e.eventType = some type) (hcreate : type ≠ .channelCreate)
    (hdestroy : type ≠ .channelDestroy) (hunbridge : type ≠ .channelUnbridge)
    (ch : Option TrackedChannel) :
    Update.act env (.event e) ch = ch.map fun ch ↦ ch.updateFromEvent env e := by
  simp only [Update.act, htype]
  split
  · rename_i heq
    exact absurd (Option.some.inj heq) hcreate
  · rename_i heq
    exact absurd (Option.some.inj heq) hdestroy
  · rename_i heq
    exact absurd (Option.some.inj heq) hunbridge
  · rfl

def channelMachine : Keyed Str (Option TrackedChannel) Update := ⟨Update.uuid, Update.act env⟩

namespace ChannelTracker

def read (t : ChannelTracker) (uuid : Str) : Option TrackedChannel := t.channels.lookup uuid

/-- The update that a turn makes, from the pending dumps before it. -/
def updates (t : ChannelTracker) (d : Delivery) : List Update :=
  match d.result with
  | .error _ => []
  | .ok event =>
      match event.eventType with
      | some .heartbeat => []
      | some .backgroundJob =>
          match event.jobUuid.bind t.pendingDumps.get, event.body with
          | some uuid, some body => [.dump uuid body]
          | _, _ => []
      | _ => [.event event]

variable {env} {t t' : ChannelTracker} {uuid : Str} {event : EslEvent} {d : Delivery}

theorem read_insert (channels : Finmap fun _ : Str ↦ TrackedChannel) (pending : HeaderMap)
    (uuid : Str) (ch : TrackedChannel) :
    read ⟨channels.insert uuid ch, pending⟩ =
      Function.update (read ⟨channels, pending⟩) uuid (some ch) := by
  funext other
  by_cases h : other = uuid
  · subst h
    rw [Function.update_self]
    exact Finmap.lookup_insert _
  · rw [Function.update_of_ne h]
    exact Finmap.lookup_insert_of_ne _ h

theorem read_erase (channels : Finmap fun _ : Str ↦ TrackedChannel) (pending : HeaderMap)
    (uuid : Str) :
    read ⟨channels.erase uuid, pending⟩ =
      Function.update (read ⟨channels, pending⟩) uuid none := by
  funext other
  by_cases h : other = uuid
  · subst h
    rw [Function.update_self]
    exact Finmap.lookup_erase _ _
  · rw [Function.update_of_ne h]
    exact Finmap.lookup_erase_ne h

theorem eq_of_logged {enabled : Bool} (h : logged enabled uuid t = some t') : t' = t := by
  unfold logged at h
  split at h
  · obtain ⟨-, -, h⟩ := Option.map_eq_some_iff.mp h
    exact h.symm
  · exact (Option.some.inj h).symm

/-- What an event does to a channel that is there, or not. -/
theorem read_updateChannel (env : Env) (t : ChannelTracker) (uuid : Str) (event : EslEvent) :
    (t.updateChannel env uuid event).read =
        Function.update t.read uuid ((t.read uuid).map fun ch ↦ ch.updateFromEvent env event) ∧
      (t.updateChannel env uuid event).pendingDumps = t.pendingDumps := by
  unfold updateChannel
  cases hch : t.channels.lookup uuid with
  | some ch =>
      refine ⟨?_, rfl⟩
      rw [read_insert]
      exact congrArg _ (by rw [read, hch]; rfl)
  | none =>
      refine ⟨?_, rfl⟩
      rw [read, hch, Option.map_none, Function.update_eq_self_iff.mpr hch.symm]

theorem step_event {type : EslEventType} (htype : event.eventType = some type)
    (huuid : event.uniqueId = some uuid) (s : Str → Option TrackedChannel) :
    (channelMachine env).step s (.event event) =
      Function.update s uuid (Update.act env (.event event) (s uuid)) := by
  have hkey : (channelMachine env).key (.event event) = some uuid := by
    change (if event.eventType = none then none else event.uniqueId) = some uuid
    rw [if_neg (by rw [htype]; exact Option.some_ne_none _), huuid]
  exact Keyed.step_of_key hkey s

theorem processEvent_spec (h : t.processEvent env event = some t') :
    t'.read = (channelMachine env).step t.read (.event event) ∧
      t'.pendingDumps = t.pendingDumps := by
  have hnone : (event.eventType = none ∨ event.uniqueId = none) →
      (channelMachine env).step t.read (.event event) = t.read := by
    intro hor
    have hkey : (channelMachine env).key (.event event) = none := by
      change (if event.eventType = none then none else event.uniqueId) = none
      rcases hor with hor | hor <;> rw [hor] <;> simp
    exact Keyed.step_of_none hkey t.read
  unfold processEvent at h
  split at h
  · rename_i htype
    obtain rfl := Option.some.inj h
    exact ⟨(hnone (Or.inl htype)).symm, rfl⟩
  · rename_i type htype
    split at h
    · rename_i huuid
      obtain rfl := Option.some.inj h
      exact ⟨(hnone (Or.inr huuid)).symm, rfl⟩
    · rename_i uuid huuid
      rw [step_event htype huuid]
      split at h
      · obtain rfl := eq_of_logged h
        refine ⟨?_, rfl⟩
        rw [read_insert]
        exact congrArg _ (by simp only [Update.act, htype])
      · obtain rfl := eq_of_logged h
        refine ⟨?_, rfl⟩
        rw [read_erase]
        exact congrArg _ (by simp only [Update.act, htype])
      · split at h
        · rename_i ch hch
          obtain rfl := eq_of_logged h
          refine ⟨?_, rfl⟩
          rw [read_insert]
          have hread : t.read uuid = some ch := hch
          exact congrArg _ (by simp only [Update.act, htype, hread, Option.map_some])
        · rename_i hch
          obtain rfl := eq_of_logged h
          refine ⟨?_, rfl⟩
          have hread : t'.read uuid = none := hch
          simp only [Update.act, htype, hread, Option.map_none]
          exact (Function.update_eq_self_iff.mpr hread.symm).symm
      · rename_i hcreate hdestroy hunbridge
        obtain rfl := eq_of_logged h
        obtain ⟨hread, hpending⟩ := read_updateChannel env t uuid event
        refine ⟨?_, hpending⟩
        rw [hread, Update.act_of_other htype hcreate hdestroy hunbridge]

theorem applyDump_spec {body : Str} (h : t.applyDump env uuid body = some t') :
    t'.read = (channelMachine env).step t.read (.dump uuid body) ∧
      t'.pendingDumps = t.pendingDumps := by
  have hstep : (channelMachine env).step t.read (.dump uuid body) =
      Function.update t.read uuid ((t.read uuid).map fun ch ↦ ch.updateFromDump env body) := rfl
  rw [hstep]
  unfold applyDump at h
  split at h
  · rename_i ch hch
    obtain rfl := eq_of_logged h
    have hread : t.read uuid = some ch := hch
    refine ⟨?_, rfl⟩
    rw [read_insert, hread]
    rfl
  · rename_i hch
    obtain rfl := Option.some.inj h
    have hread : t.read uuid = none := hch
    refine ⟨?_, rfl⟩
    rw [hread, Option.map_none, Function.update_eq_self_iff.mpr hread.symm]

theorem requestDump_spec {reply : EslResult EslResponse}
    (h : t.requestDump env uuid reply = some t') :
    t'.read = t.read ∧ t'.pendingDumps =
      (replyJob reply).elim t.pendingDumps fun job ↦ t.pendingDumps.insert job uuid := by
  unfold requestDump at h
  cases reply with
  | error _ =>
      obtain rfl := eq_of_logged h
      exact ⟨rfl, rfl⟩
  | ok response =>
      simp only [replyJob]
      cases hjob : response.headers.get "Job-UUID".toList with
      | none =>
          simp only [hjob] at h
          obtain rfl := Option.some.inj h
          exact ⟨rfl, rfl⟩
      | some job =>
          simp only [hjob] at h
          obtain rfl := Option.some.inj h
          exact ⟨rfl, rfl⟩

/-- An answer to a pending dump takes the dump off the list, whatever becomes of it. -/
theorem handleBackgroundJob_cases (h : t.handleBackgroundJob env event = some t') :
    (event.jobUuid.bind t.pendingDumps.get = none ∧ t' = t) ∨
      ∃ job uuid, event.jobUuid = some job ∧ t.pendingDumps.get job = some uuid ∧
        ((event.body = none ∧ t' = { t with pendingDumps := t.pendingDumps.erase job }) ∨
          ∃ body, event.body = some body ∧
            applyDump env { t with pendingDumps := t.pendingDumps.erase job } uuid body =
              some t') := by
  unfold handleBackgroundJob at h
  split at h
  · rename_i hjob
    exact Or.inl ⟨by rw [hjob]; rfl, (Option.some.inj h).symm⟩
  · rename_i job hjob
    split at h
    · rename_i hpending
      exact Or.inl ⟨by rw [hjob]; exact hpending, (Option.some.inj h).symm⟩
    · rename_i uuid hpending
      refine Or.inr ⟨job, uuid, hjob, hpending, ?_⟩
      split at h
      · rename_i body hbody
        exact Or.inr ⟨body, hbody, h⟩
      · rename_i hbody
        exact Or.inl ⟨hbody, (Option.some.inj h).symm⟩

/-- What a turn can do. -/
inductive TurnCase (env : Env) (t : ChannelTracker) (d : Delivery) (t' : ChannelTracker) : Prop
  | error (e : EslError) : d.result = .error e → t' = t → TurnCase env t d t'
  | summary (event : EslEvent) : d.result = .ok event → event.eventType = some .heartbeat →
      t.printSummary ≠ none → t' = t → TurnCase env t d t'
  | job (event : EslEvent) : d.result = .ok event → event.eventType = some .backgroundJob →
      t.handleBackgroundJob env event = some t' → TurnCase env t d t'
  | create (event : EslEvent) (uuid : Str) (u : ChannelTracker) : d.result = .ok event →
      event.eventType = some .channelCreate → event.uniqueId = some uuid →
      t.processEvent env event = some u → u.requestDump env uuid d.reply = some t' →
      TurnCase env t d t'
  | event (event : EslEvent) : d.result = .ok event → event.eventType ≠ some .heartbeat →
      event.eventType ≠ some .backgroundJob →
      (event.eventType = some .channelCreate → event.uniqueId = none) →
      t.processEvent env event = some t' → TurnCase env t d t'

theorem turn_cases (h : t.turn env d = some t') : TurnCase env t d t' := by
  unfold turn at h
  split at h
  · rename_i e hresult
    exact .error e hresult (Option.some.inj h).symm
  · rename_i event hresult
    split at h
    · rename_i htype
      obtain ⟨lines, hlines, ht⟩ := Option.map_eq_some_iff.mp h
      exact .summary event hresult htype (by rw [hlines]; exact Option.some_ne_none _) ht.symm
    · rename_i htype
      exact .job event hresult htype h
    · rename_i htype
      split at h
      · rename_i uuid huuid
        obtain ⟨u, hu, hrequest⟩ := Option.bind_eq_some_iff.mp h
        exact .create event uuid u hresult htype huuid hu hrequest
      · rename_i huuid
        exact .event event hresult (by rw [htype]; decide) (by rw [htype]; decide)
          (fun _ ↦ huuid) h
    · rename_i hheartbeat hjob hcreate
      exact .event event hresult hheartbeat hjob (fun htype ↦ absurd htype hcreate) h

theorem updates_of_event (hresult : d.result = .ok event)
    (hheartbeat : event.eventType ≠ some .heartbeat)
    (hjob : event.eventType ≠ some .backgroundJob) : t.updates d = [.event event] := by
  simp only [updates, hresult]

/-- A turn makes its update and no other. -/
theorem read_turn (h : t.turn env d = some t') :
    t'.read = (channelMachine env).run t.read (t.updates d) := by
  cases turn_cases h with
  | error e hresult ht =>
      rw [ht, updates, hresult]
      rfl
  | summary event hresult htype _ ht =>
      simp only [ht, updates, hresult, htype]
      rfl
  | job event hresult htype hhandle =>
      simp only [updates, hresult, htype]
      rcases handleBackgroundJob_cases hhandle with
        ⟨hnone, rfl⟩ | ⟨job, uuid, hjob, hpending, hdump⟩
      · simp only [hnone]
        rfl
      · have hsome : event.jobUuid.bind t.pendingDumps.get = some uuid := by
          rw [hjob]
          exact hpending
        simp only [hsome]
        rcases hdump with ⟨hbody, rfl⟩ | ⟨body, hbody, happly⟩
        · simp only [hbody]
          rfl
        · simp only [hbody]
          exact (applyDump_spec happly).1
  | create event uuid u hresult htype _ hu hrequest =>
      rw [updates_of_event hresult (by rw [htype]; decide) (by rw [htype]; decide),
        (requestDump_spec hrequest).1]
      exact (processEvent_spec hu).1
  | event event hresult hheartbeat hjob _ hprocess =>
      rw [updates_of_event hresult hheartbeat hjob]
      exact (processEvent_spec hprocess).1

end ChannelTracker

/-! ## Pending dumps -/

/-- The dump that a turn asks for: the job, and the channel it is about. -/
def Delivery.requested (d : Delivery) : Option (Str × Str) :=
  match d.result with
  | .error _ => none
  | .ok event =>
      if event.eventType = some .channelCreate then
        event.uniqueId.bind fun uuid ↦ (replyJob d.reply).map fun job ↦ (job, uuid)
      else none

/-- The job that a delivery answers. -/
def Delivery.answered (d : Delivery) : Option Str :=
  match d.result with
  | .error _ => none
  | .ok event => if event.eventType = some .backgroundJob then event.jobUuid else none

/-- What a turn makes of the entry of a job: a request enters it, an answer takes it out. -/
def Delivery.dumpEntry (job : Str) (d : Delivery) : Option (Option Str) :=
  if d.answered = some job then some none
  else d.requested.bind fun p ↦ if p.1 = job then some (some p.2) else none

namespace ChannelTracker

variable {env : Env} {t t' : ChannelTracker} {d : Delivery}

/-- The list of pending dumps after a turn. -/
theorem get_pendingDumps_turn (h : t.turn env d = some t') (job : Str) :
    t'.pendingDumps.get job = (d.dumpEntry job).getD (t.pendingDumps.get job) := by
  cases turn_cases h with
  | error e hresult ht =>
      simp [ht, Delivery.dumpEntry, Delivery.answered, Delivery.requested, hresult]
  | summary event hresult htype _ ht =>
      simp [ht, Delivery.dumpEntry, Delivery.answered, Delivery.requested, hresult, htype]
  | job event hresult htype hhandle =>
      have hentry : d.dumpEntry job = if event.jobUuid = some job then some none else none := by
        simp [Delivery.dumpEntry, Delivery.answered, Delivery.requested, hresult, htype]
      rw [hentry]
      rcases handleBackgroundJob_cases hhandle with
        ⟨hnone, rfl⟩ | ⟨job', uuid, hjob, hpending, hdump⟩
      · split
        · rename_i hjob
          rw [hjob] at hnone
          exact hnone
        · rfl
      · have hdumps : t'.pendingDumps = t.pendingDumps.erase job' := by
          rcases hdump with ⟨-, rfl⟩ | ⟨body, -, happly⟩
          · rfl
          · rw [(applyDump_spec happly).2]
        rw [hdumps, hjob]
        split
        · rename_i heq
          obtain rfl := Option.some.inj heq
          exact Finmap.lookup_erase _ _
        · rename_i hne
          exact Finmap.lookup_erase_ne fun heq ↦ hne (congrArg some heq.symm)
  | create event uuid u hresult htype huuid hu hrequest =>
      have hentry : d.dumpEntry job =
          (replyJob d.reply).bind fun j ↦ if j = job then some (some uuid) else none := by
        simp [Delivery.dumpEntry, Delivery.answered, Delivery.requested, hresult, htype, huuid,
          Option.bind_map]
      rw [hentry, (requestDump_spec hrequest).2, (processEvent_spec hu).2]
      cases replyJob d.reply with
      | none => rfl
      | some j =>
          by_cases hj : j = job
          · subst hj
            simp
          · simp [hj, HeaderMap.get_insert_of_ne _ _ (Ne.symm hj)]
  | event event hresult _ hjob hcreate hprocess =>
      rw [(processEvent_spec hprocess).2]
      have hentry : d.dumpEntry job = none := by
        simp only [Delivery.dumpEntry, Delivery.answered, Delivery.requested, hresult, if_neg hjob]
        split
        · rename_i heq
          cases heq
        · split
          · rename_i htype
            rw [hcreate htype]
            rfl
          · rfl
      rw [hentry]
      rfl

end ChannelTracker

end FreeswitchEsl.Tracker
