import FreeswitchEsl.Tracker.History

/-!
# What makes the tracker panic

The tracker cuts texts that the switch sends, in log lines and in the summary.  As long as no
text of an event or a dump has a character across the cut, no turn panics.
-/

namespace FreeswitchEsl.Tracker

open Text

def SIP_CALL_ID : Str := "variable_".toList ++ "sip_call_id".toList

/-- The value of a header that the summary cuts can be cut. -/
def Fits (name value : Str) : Prop :=
  (name = ChannelTracker.OTHER_LEG → ¬ CutsChar 8 value) ∧
    (name = SIP_CALL_ID → ¬ CutsChar 16 value)

/-- What a delivery brings can be cut. -/
structure Delivery.Safe (env : Env) (d : Delivery) : Prop where
  uuid : ∀ event uuid, d.result = .ok event → event.uniqueId = some uuid → ¬ CutsChar 8 uuid
  header : ∀ event name value, d.result = .ok event → event.header name = some value →
    Fits name value
  dump : ∀ event body name value, d.result = .ok event → event.body = some body →
    (HeaderMap.ofList ((lines body).filterMap (TrackedChannel.dumpLine env))).get name =
      some value → Fits name value

/-- Everything that the tracker holds can be cut. -/
structure ChannelTracker.Fit (t : ChannelTracker) : Prop where
  channel : ∀ uuid ch name value, t.read uuid = some ch → ch.get name = some value →
    Fits name value
  pending : ∀ job uuid, t.pendingDumps.get job = some uuid → ¬ CutsChar 8 uuid

variable {env : Env} {t t' : ChannelTracker} {d : Delivery} {ds : List Delivery} {uuid : Str}
  {event : EslEvent}

namespace ChannelTracker

theorem fit_new : ChannelTracker.new.Fit where
  channel _ _ _ _ h := by cases h
  pending _ _ h := by cases h

/-! ## No panic -/

theorem exists_logged (enabled : Bool) (h : ¬ CutsChar 8 uuid) (t : ChannelTracker) :
    ∃ t', logged enabled uuid t = some t' := by
  unfold logged
  cases enabled with
  | false => exact ⟨t, rfl⟩
  | true =>
      cases hslice : shortUuid uuid with
      | none => exact absurd (sliceTo_eq_none_iff.mp hslice) h
      | some short => exact ⟨t, rfl⟩

theorem exists_processEvent (env : Env)
    (huuid : ∀ uuid, event.uniqueId = some uuid → ¬ CutsChar 8 uuid)
    (t : ChannelTracker) : ∃ t', t.processEvent env event = some t' := by
  unfold processEvent
  split
  · exact ⟨t, rfl⟩
  · split
    · exact ⟨t, rfl⟩
    · rename_i uuid hid
      have hcut := huuid uuid hid
      split
      · exact exists_logged _ hcut _
      · exact exists_logged _ hcut _
      · split <;> exact exists_logged _ hcut _
      · exact exists_logged _ hcut _

theorem exists_requestDump (env : Env) (h : ¬ CutsChar 8 uuid) (t : ChannelTracker)
    (reply : EslResult EslResponse) : ∃ t', t.requestDump env uuid reply = some t' := by
  unfold requestDump
  split
  · split <;> exact ⟨_, rfl⟩
  · exact exists_logged _ h _

theorem exists_handleBackgroundJob (h : t.Fit) (event : EslEvent) :
    ∃ t', t.handleBackgroundJob env event = some t' := by
  unfold handleBackgroundJob
  split
  · exact ⟨t, rfl⟩
  · split
    · exact ⟨t, rfl⟩
    · rename_i channel hpending
      dsimp only
      split
      · unfold applyDump
        split
        · exact exists_logged _ (h.pending _ _ hpending) _
        · exact ⟨_, rfl⟩
      · exact ⟨_, rfl⟩

theorem Fit.not_panics (h : t.Fit) {ch : TrackedChannel} (hch : t.read uuid = some ch) :
    ¬ ch.Panics := by
  rintro (⟨other, hget, hcut⟩ | ⟨callId, hget, hcut⟩)
  · exact (h.channel uuid ch _ _ hch hget).1 rfl hcut
  · exact (h.channel uuid ch _ _ hch hget).2 rfl hcut

theorem exists_turn (h : t.Fit) (hsafe : d.Safe env) : ∃ t', t.turn env d = some t' := by
  unfold turn
  split
  · exact ⟨t, rfl⟩
  · rename_i event hresult
    have huuid : ∀ uuid, event.uniqueId = some uuid → ¬ CutsChar 8 uuid := fun uuid ↦
      hsafe.uuid event uuid hresult
    split
    · cases hsummary : t.printSummary with
      | some lines => exact ⟨t, rfl⟩
      | none =>
          obtain ⟨uuid, ch, hch, hpanics⟩ := printSummary_eq_none_iff.mp hsummary
          exact absurd hpanics (h.not_panics hch)
    · exact exists_handleBackgroundJob h event
    · split
      · rename_i uuid hid
        obtain ⟨u, hu⟩ := exists_processEvent env huuid t
        obtain ⟨t', ht'⟩ := exists_requestDump env (huuid uuid hid) u d.reply
        exact ⟨t', Option.bind_eq_some_iff.mpr ⟨u, hu, ht'⟩⟩
      · exact exists_processEvent env huuid t
    · exact exists_processEvent env huuid t

/-! ## What the tracker holds -/

theorem fits_of_tells {up : Update} {name value : Str}
    (hevent : ∀ e, up = .event e → e.header name = some value → Fits name value)
    (hdump : ∀ uuid body, up = .dump uuid body →
      (HeaderMap.ofList ((lines body).filterMap (TrackedChannel.dumpLine env))).get name =
        some value → Fits name value)
    (h : up.tells env name = some (some value)) : Fits name value := by
  cases up with
  | event e =>
      refine hevent e rfl ?_
      unfold Update.tells at h
      dsimp only at h
      split at h
      · exact Option.some.inj h
      · split at h
        · cases Option.some.inj h
        · split at h
          · cases Option.some.inj h
          · simpa using h
  | dump uuid body =>
      refine hdump uuid body rfl ?_
      simpa [Update.tells] using h

theorem updates_cases (t : ChannelTracker) (d : Delivery) :
    t.updates d = [] ∨ (∃ e, d.result = .ok e ∧ t.updates d = [.event e]) ∨
      ∃ e uuid body, d.result = .ok e ∧ e.body = some body ∧ t.updates d = [.dump uuid body] := by
  unfold updates
  split
  · exact Or.inl rfl
  · rename_i event hresult
    split
    · exact Or.inl rfl
    · split
      · rename_i uuid body _ hbody
        exact Or.inr (Or.inr ⟨event, uuid, body, hresult, hbody, rfl⟩)
      · exact Or.inl rfl
    · exact Or.inr (Or.inl ⟨event, hresult, rfl⟩)

/-- One update keeps what fits, when it brings only what fits. -/
theorem fits_of_step {s : Str → Option TrackedChannel} {up : Update}
    (hs : ∀ uuid ch name value, s uuid = some ch → ch.get name = some value → Fits name value)
    (hup : ∀ name value, up.tells env name = some (some value) → Fits name value)
    {ch : TrackedChannel} {name value : Str} (hch : (channelMachine env).step s up uuid = some ch)
    (hget : ch.get name = some value) : Fits name value := by
  rw [Keyed.step_apply] at hch
  split at hch
  · have hact : (Update.act env up (s uuid)).bind (fun ch ↦ ch.get name) = some value :=
      Option.bind_eq_some_iff.mpr ⟨ch, hch, hget⟩
    have halive : (Update.act env up (s uuid)).isSome := Option.isSome_iff_exists.mpr ⟨ch, hch⟩
    rw [get_act up (s uuid) name halive] at hact
    cases htells : up.tells env name with
    | none =>
        rw [htells, Option.getD_none] at hact
        obtain ⟨old, hold, hvalue⟩ := Option.bind_eq_some_iff.mp hact
        exact hs uuid old name value hold hvalue
    | some told =>
        rw [htells, Option.getD_some] at hact
        exact hup name value (htells.trans (congrArg some hact))
  · exact hs uuid ch name value hch hget

theorem uuid_of_dumpEntry {job channel : Str} (h : d.dumpEntry job = some (some channel)) :
    ∃ event, d.result = .ok event ∧ event.uniqueId = some channel := by
  unfold Delivery.dumpEntry at h
  split at h
  · cases Option.some.inj h
  · obtain ⟨p, hp, h⟩ := Option.bind_eq_some_iff.mp h
    split at h
    · obtain rfl := Option.some.inj (Option.some.inj h)
      unfold Delivery.requested at hp
      split at hp
      · cases hp
      · rename_i event hresult
        split at hp
        · obtain ⟨uuid, huuid, hp⟩ := Option.bind_eq_some_iff.mp hp
          obtain ⟨job', -, rfl⟩ := Option.map_eq_some_iff.mp hp
          exact ⟨event, hresult, huuid⟩
        · cases hp
    · cases h

theorem Fit.turn (h : t.Fit) (hsafe : d.Safe env) (hturn : t.turn env d = some t') : t'.Fit where
  pending job channel hget := by
    rw [get_pendingDumps_turn hturn] at hget
    cases hentry : d.dumpEntry job with
    | none =>
        rw [hentry] at hget
        exact h.pending job channel hget
    | some entry =>
        rw [hentry, Option.getD_some] at hget
        rw [hget] at hentry
        obtain ⟨event, hresult, huuid⟩ := uuid_of_dumpEntry hentry
        exact hsafe.uuid event channel hresult huuid
  channel uuid ch name value hch hget := by
    rw [read_turn hturn] at hch
    rcases t.updates_cases d with hnone | ⟨event, hresult, hone⟩ |
      ⟨event, channel, body, hresult, hbody, hone⟩
    · rw [hnone] at hch
      exact h.channel uuid ch name value hch hget
    · rw [hone] at hch
      change (channelMachine env).step t.read (.event event) uuid = some ch at hch
      refine fits_of_step h.channel (fun name value htells ↦ ?_) hch hget
      refine fits_of_tells ?_ (fun _ _ heq ↦ by cases heq) htells
      rintro _ ⟨⟩ hvalue
      exact hsafe.header event name value hresult hvalue
    · rw [hone] at hch
      change (channelMachine env).step t.read (.dump channel body) uuid = some ch at hch
      refine fits_of_step h.channel (fun name value htells ↦ ?_) hch hget
      refine fits_of_tells (fun _ heq ↦ by cases heq) ?_ htells
      rintro _ _ ⟨⟩ hvalue
      exact hsafe.dump event body name value hresult hbody hvalue

end ChannelTracker

/-- Whatever comes in whatever order, no turn panics and the summary can be printed, as long as
the texts that are cut can be cut. -/
theorem never_panics (hsafe : ∀ d ∈ ds, d.Safe env) :
    ∃ t lines, Transition.run (ChannelTracker.turn env) .new ds = some t ∧
      t.printSummary = some lines := by
  have hrun : ∀ (ds : List Delivery) (t : ChannelTracker), t.Fit → (∀ d ∈ ds, d.Safe env) →
      ∃ t', Transition.run (ChannelTracker.turn env) t ds = some t' ∧ t'.Fit := by
    intro ds
    induction ds with
    | nil => exact fun t ht _ ↦ ⟨t, rfl, ht⟩
    | cons d ds ih =>
        intro t ht hsafe
        have hd := hsafe d List.mem_cons_self
        obtain ⟨u, hu⟩ := ChannelTracker.exists_turn ht hd
        obtain ⟨t', ht', hfit⟩ := ih u (ht.turn hd hu) fun d' hd' ↦
          hsafe d' (List.mem_cons_of_mem _ hd')
        exact ⟨t', Transition.run_cons_eq_some.mpr ⟨u, hu, ht'⟩, hfit⟩
  obtain ⟨t, ht, hfit⟩ := hrun ds .new ChannelTracker.fit_new hsafe
  cases hsummary : t.printSummary with
  | some lines => exact ⟨t, lines, ht, hsummary⟩
  | none =>
      obtain ⟨uuid, ch, hch, hpanics⟩ := ChannelTracker.printSummary_eq_none_iff.mp hsummary
      exact absurd hpanics (hfit.not_panics hch)

theorem safe_of_ascii {headers : HeaderMap} {eventType : EslEventType}
    {reply : EslResult EslResponse}
    (h : ∀ name value, headers.get name = some value → ∀ c ∈ value, c.utf8Size = 1) :
    Delivery.Safe env ⟨.ok ⟨some eventType, headers, none⟩, reply⟩ where
  uuid event uuid hresult huuid := by
    obtain rfl := Except.ok.inj hresult
    rcases Option.or_eq_some_iff.mp huuid with huuid | ⟨-, huuid⟩ <;>
      exact not_cutsChar_of_ascii (h _ _ huuid) 8
  header event name value hresult hvalue := by
    obtain rfl := Except.ok.inj hresult
    exact ⟨fun _ ↦ not_cutsChar_of_ascii (h _ _ hvalue) 8,
      fun _ ↦ not_cutsChar_of_ascii (h _ _ hvalue) 16⟩
  dump event body name value hresult hbody := by
    obtain rfl := Except.ok.inj hresult
    cases hbody

theorem value_of_get_pair {p q : Str × Str} {name value : Str}
    (h : (HeaderMap.ofList [p, q]).get name = some value) : value = p.2 ∨ value = q.2 := by
  rw [HeaderMap.get_ofList_cons, HeaderMap.get_ofList_cons, Option.or_eq_some_iff,
    Option.or_eq_some_iff] at h
  rcases h with (h | ⟨-, h⟩) | ⟨-, h⟩
  · cases h
  · split at h
    · exact Or.inr (Option.some.inj h).symm
    · cases h
  · split at h
    · exact Or.inl (Option.some.inj h).symm
    · cases h

theorem never_panics_bridged :
    let events := [channelEvent .channelCreate "a" "variable_sip_call_id" "1234567890abcdef@pbx",
      channelEvent .channelBridge "a" "Other-Leg-Unique-ID" "b"]
    ∃ t lines, Transition.run (ChannelTracker.turn .published) .new
        (events.map fun e ↦ ⟨.ok e, .error .notConnected⟩) = some t ∧
      t.printSummary = some lines := by
  intro events
  have hall : ["a", "1234567890abcdef@pbx", "b"].all
      (fun text ↦ text.toList.all fun c ↦ c.utf8Size == 1) = true := by decide
  have hascii : ∀ text ∈ ["a", "1234567890abcdef@pbx", "b"], ∀ c ∈ text.toList,
      c.utf8Size = 1 := by
    intro text htext c hc
    have htrue := List.all_eq_true.mp (List.all_eq_true.mp hall text htext) c hc
    exact beq_iff_eq.mp htrue
  refine never_panics fun d hd ↦ ?_
  obtain ⟨e, he, rfl⟩ := List.mem_map.mp hd
  rcases List.mem_cons.mp he with rfl | he
  · refine safe_of_ascii fun name value hvalue ↦ ?_
    rcases value_of_get_pair hvalue with rfl | rfl <;> exact hascii _ (by simp)
  · obtain rfl := List.mem_singleton.mp he
    refine safe_of_ascii fun name value hvalue ↦ ?_
    rcases value_of_get_pair hvalue with rfl | rfl <;> exact hascii _ (by simp)

end FreeswitchEsl.Tracker
