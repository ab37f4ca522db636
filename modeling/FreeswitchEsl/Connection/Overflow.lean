import FreeswitchEsl.Connection.System
import FreeswitchEsl.Percent

/-!
# Event delivery under overflow

What the application receives, what is still queued and what was dropped account
for every event message that the reader has parsed.  A gap is announced by a
notice, unless the application receives between the two sends of one dispatch.
-/

namespace FreeswitchEsl

open Text Transition

variable (X : Crates)

/-! ## Results and notices -/

def isQueueFull : EslResult EslEvent → Bool
  | .error .queueFull => true
  | _ => false

theorem foldlM_parseXmlStep_ne_queueFull (events : List XmlEvent) (s : XmlState) :
    events.foldlM parseXmlStep s ≠ .error .queueFull := by
  induction events generalizing s with
  | nil => simp [List.foldlM, pure, Except.pure]
  | cons event events ih =>
      rw [List.foldlM_cons]
      cases hstep : parseXmlStep s event with
      | ok s' => exact ih s'
      | error e =>
          intro h
          obtain rfl : e = .queueFull := Except.error.inj h
          cases event with
          | text unescaped => cases unescaped <;> cases hstep
          | start name => cases hstep
          | endTag name => cases hstep
          | other => cases hstep

theorem parseJsonEvent_ne_queueFull (m : EslMessage) :
    parseJsonEvent X m ≠ .error .queueFull := by
  unfold parseJsonEvent
  split
  · nofun
  · split <;> nofun

theorem parsePlainEvent_ne_queueFull (m : EslMessage) :
    parsePlainEvent X m ≠ .error .queueFull := by
  unfold parsePlainEvent
  split
  · nofun
  · split <;> nofun

theorem parseXmlEvent_ne_queueFull (m : EslMessage) :
    parseXmlEvent X m ≠ .error .queueFull := by
  unfold parseXmlEvent
  split
  · nofun
  · rename_i body hbody
    dsimp only
    intro h
    cases hfold : (X.xmlRead body).events.foldlM parseXmlStep
        ⟨EslEvent.new, false, false, none⟩ with
    | error e =>
        rw [hfold] at h
        obtain rfl : e = .queueFull := Except.error.inj h
        exact foldlM_parseXmlStep_ne_queueFull _ _ hfold
    | ok s =>
        rw [hfold] at h
        dsimp only [bind, Except.bind] at h
        split at h <;> nomatch h

theorem isQueueFull_eventResult (m : EslMessage) : isQueueFull (m.eventResult X) = false := by
  have hne : m.eventResult X ≠ .error .queueFull := by
    unfold EslMessage.eventResult parseEvent
    cases m.eventFormat with
    | plain => exact parsePlainEvent_ne_queueFull X m
    | json => exact parseJsonEvent_ne_queueFull X m
    | xml => exact parseXmlEvent_ne_queueFull X m
  unfold isQueueFull
  split
  · rename_i heq
    exact absurd heq hne
  · rfl

def Sent.result : Sent → Option (EslResult EslEvent)
  | .notice => none
  | .item _ result => some result

def Sent.isNotice : Sent → Bool
  | .notice => true
  | .item _ _ => false

/-- The results that the reader has got for the event messages it has parsed. -/
def ReaderTask.eventResults (r : ReaderTask) : List (EslResult EslEvent) :=
  r.eventMessages.map (EslMessage.eventResult X)

theorem ReaderTask.eventMessages_of_event {r r' : ReaderTask} {m : EslMessage}
    (h : r'.messages = r.messages ++ [m]) (hm : m.messageType = .event) :
    r'.eventMessages = r.eventMessages ++ [m] := by
  simp [eventMessages, h, hm]

theorem ReaderTask.eventMessages_of_ne {r r' : ReaderTask} {ms : List EslMessage}
    (h : r'.messages = r.messages ++ ms) (hms : ∀ m ∈ ms, m.messageType ≠ .event) :
    r'.eventMessages = r.eventMessages := by
  have hnone : ms.filter (fun m ↦ decide (m.messageType = .event)) = [] := by
    simpa using hms
  rw [eventMessages, h, List.filter_append, hnone, List.append_nil]
  rfl

/-! ## An overflow episode -/

def threeEvents : Bytes :=
  (List.replicate 3 (utf8Encode
    "Content-Length: 17\nContent-Type: text/event-plain\n\nEvent-Name: TALK\n".toList)).flatten

/-- With room for one event, the second event is dropped and the notice for it does
not fit.  The application receives just before the third event is sent. -/
def interruptedDispatch : List Act :=
  [.reader, .read (.data threeEvents), .reader, .reader, .reader, .reader, .reader, .reader,
    .recv, .reader, .recv]

/-- As before, but the application receives as soon as there is something. -/
def announcedDispatch : List Act :=
  [.reader, .read (.data threeEvents), .reader, .reader, .reader, .reader, .recv, .reader, .reader,
    .recv, .reader, .recv]

/-- The numbers of the items, and nothing for a notice. -/
def Sent.number : Sent → Option Nat
  | .notice => none
  | .item number _ => some number

/-! ## Accounting -/

/-- What has been sent and what has been dropped accounts for the results that
the reader is done with. -/
structure Accounted (r : ReaderTask) (d : Delivery) : Prop where
  delivered : d.channel.receiverAlive = true →
    ∃ past, r.eventResults X = past ++ r.pc.inFlight ∧
      (d.channel.log.filterMap Sent.result).Sublist past ∧
      (d.channel.log.filterMap Sent.result).length + d.dropped.length = past.length
  notifying : ∀ result, r.pc = .notifying result → d.eventOverflow = true
  notices : d.channel.log.countP Sent.isNotice + d.eventOverflow.toNat ≤ d.dropped.length
  count : d.droppedEventCount.toNat = d.dropped.length % 2 ^ 64

variable {X}

namespace Accounted

variable {r r' : ReaderTask} {d d' : Delivery}

theorem of_reader (h : Accounted X r d) (hmessages : r'.eventMessages = r.eventMessages)
    (hpc : d.channel.receiverAlive = true → r.pc.inFlight = []) (hpc' : r'.pc.inFlight = []) :
    Accounted X r' d where
  delivered := by
    intro halive
    obtain ⟨past, hpast, hlog⟩ := h.delivered halive
    refine ⟨past, ?_, hlog⟩
    rw [hpc', ← hpc halive, ← hpast]
    simp only [ReaderTask.eventResults, hmessages]
  notifying := by
    intro result hresult
    rw [hresult] at hpc'
    cases hpc'
  notices := h.notices
  count := h.count

theorem of_channel (h : Accounted X r d) {channel : BoundedChannel Sent}
    (halive : channel.receiverAlive = true →
      d.channel.receiverAlive = true ∧ channel.log = d.channel.log)
    (hlog : channel.log.Sublist d.channel.log) : Accounted X r { d with channel := channel } where
  delivered := by
    intro h'
    obtain ⟨hd, heq⟩ := halive h'
    dsimp only
    rw [heq]
    exact h.delivered hd
  notifying := h.notifying
  notices := le_trans (Nat.add_le_add_right (hlog.countP_le) _) h.notices
  count := h.count

theorem parse (h : Accounted X r d) (hpc : r.pc = .parsing) :
    Accounted X (r.parse X d.eventOverflow) d := by
  have hidle : r.pc.inFlight = [] := by
    rw [hpc]
    rfl
  rcases ReaderTask.parse_cases (X := X) d.eventOverflow hpc with
    ⟨m, hm, hmessages, -, hnext⟩ | ⟨m, hm, hmessages, -, hnext⟩ | ⟨ms, hms, hmessages, hnext⟩
  · have hevents := ReaderTask.eventMessages_of_event hmessages hm
    refine ⟨?_, ?_, h.notices, h.count⟩
    · intro halive
      obtain ⟨past, hpast, hlog⟩ := h.delivered halive
      refine ⟨past, ?_, hlog⟩
      rw [hidle, List.append_nil] at hpast
      rw [ReaderTask.eventResults, hevents, List.map_append, ← hpast, hnext]
      split <;> rfl
    · intro result hresult
      rw [hnext] at hresult
      split at hresult
      · assumption
      · cases hresult
  · refine h.of_reader (ReaderTask.eventMessages_of_ne hmessages ?_) (fun _ ↦ hidle)
      (by rw [hnext]; rfl)
    simp only [List.mem_singleton, forall_eq]
    rcases hm with hm | hm <;> simp [hm]
  · refine h.of_reader (ReaderTask.eventMessages_of_ne hmessages fun m hm ↦ (hms m hm).1)
      (fun _ ↦ hidle) ?_
    rcases hnext with ⟨-, hnext | hnext⟩ | ⟨-, hnext⟩ <;> rw [hnext] <;> rfl

theorem notify (h : Accounted X r d) {result : EslResult EslEvent} (hpc : r.pc = .notifying result)
    {sent : BoundedChannel.SendResult} (hnotify : d.notify = (sent, d')) :
    Accounted X { r with pc := .sending result } d' := by
  have hoverflow := h.notifying result hpc
  have hnotices := h.notices
  rcases Delivery.notify_cases hnotify with
    ⟨-, halive, -, -, hlog, -, hflag, hcount, hdropped⟩ | ⟨-, rfl, -⟩ | ⟨-, rfl, -⟩
  · have hitems : d'.channel.log.filterMap Sent.result = d.channel.log.filterMap Sent.result := by
      rw [hlog, List.filterMap_append]
      exact List.append_nil _
    refine ⟨?_, by simp, ?_, ?_⟩
    · intro _
      obtain ⟨past, hpast, hsub⟩ := h.delivered halive
      rw [hpc] at hpast
      refine ⟨past, hpast, ?_⟩
      rw [hitems, hdropped]
      exact hsub
    · rw [hlog, hflag, hdropped, List.countP_append]
      rw [hoverflow] at hnotices
      simpa [Sent.isNotice] using hnotices
    · rw [hcount, hdropped]
      exact h.count
  all_goals
    refine ⟨?_, by simp, hnotices, h.count⟩
    intro halive
    obtain ⟨past, hpast, hlog⟩ := h.delivered halive
    rw [hpc] at hpast
    exact ⟨past, hpast, hlog⟩

/-- The result that the reader is sending is the last one. -/
theorem delivered_sending (h : Accounted X r d) {result : EslResult EslEvent}
    (hpc : r.pc = .sending result) (halive : d.channel.receiverAlive = true) :
    ∃ past, r.eventResults X = past ++ [result] ∧
      (d.channel.log.filterMap Sent.result).Sublist past ∧
      (d.channel.log.filterMap Sent.result).length + d.dropped.length = past.length := by
  have h := h.delivered halive
  rw [hpc] at h
  exact h

theorem send (h : Accounted X r d) {result : EslResult EslEvent} (hpc : r.pc = .sending result)
    {number : Nat} {sent : BoundedChannel.SendResult}
    (hsend : d.send number result = (sent, d')) {pc : ReaderPc} (hidle : pc.inFlight = []) :
    Accounted X { r with pc := pc } d' := by
  have hnotifying : ∀ result', pc ≠ .notifying result' := by
    rintro result' rfl
    cases hidle
  have hnotices := h.notices
  have hcount := h.count
  rcases Delivery.send_cases hsend with
    ⟨-, halive, -, -, hlog, -, hflag, hcount', hdropped⟩ | ⟨-, halive, -, rfl⟩ | ⟨-, rfl, hdead⟩
  · have hitems : d'.channel.log.filterMap Sent.result =
        d.channel.log.filterMap Sent.result ++ [result] := by
      rw [hlog, List.filterMap_append]
      rfl
    refine ⟨?_, fun result' h' ↦ absurd h' (hnotifying result'), ?_, ?_⟩
    · intro _
      obtain ⟨past, hpast, hsub, hlength⟩ := h.delivered_sending hpc halive
      refine ⟨past ++ [result], by rw [hidle, List.append_nil]; exact hpast, ?_, ?_⟩
      · rw [hitems]
        exact hsub.append (List.Sublist.refl _)
      · rw [hitems, hdropped]
        simp only [List.length_append, List.length_singleton]
        omega
    · rw [hlog, hflag, hdropped, List.countP_append]
      simpa [Sent.isNotice] using hnotices
    · rw [hcount', hdropped]
      exact hcount
  · refine ⟨?_, fun result' h' ↦ absurd h' (hnotifying result'), ?_, ?_⟩
    · intro _
      obtain ⟨past, hpast, hsub, hlength⟩ := h.delivered_sending hpc halive
      refine ⟨past ++ [result], by rw [hidle, List.append_nil]; exact hpast, ?_, ?_⟩
      · exact hsub.trans (List.sublist_append_left _ _)
      · simp only [List.length_append, List.length_singleton]
        omega
    · simp only [List.length_append, List.length_singleton, Bool.toNat_true]
      omega
    · simp only [UInt64.toNat_add, List.length_append, List.length_singleton, hcount]
      change (d.dropped.length % 2 ^ 64 + 1) % 2 ^ 64 = _
      omega
  · refine ⟨?_, fun result' h' ↦ absurd h' (hnotifying result'), hnotices, hcount⟩
    intro halive
    rw [hdead] at halive
    cases halive

end Accounted

theorem accounted_step {s t : Connection} {a : Act} (h : Accounted X s.reader s.delivery)
    (hstep : s.step X a = some t) : Accounted X t.reader t.delivery := by
  cases Connection.effect_of_step X hstep with
  | parsed hpc => exact h.parse hpc
  | noticed hpc hnotify _ => exact h.notify hpc hnotify
  | noticeRefused hpc hnotify =>
      obtain ⟨rfl, hdead⟩ := Delivery.of_notify_closed hnotify
      refine h.of_reader rfl ?_ rfl
      intro halive
      rw [hdead] at halive
      cases halive
  | dispatched hpc hsend _ => exact h.send hpc hsend rfl
  | itemRefused hpc hsend => exact h.send hpc hsend rfl
  | replied hpc => exact h.of_reader rfl (fun _ ↦ by rw [hpc]; rfl) rfl
  | returned hpc =>
      have hdone : Accounted X { s.reader with pc := .done } s.delivery :=
        h.of_reader rfl (fun _ ↦ by rw [hpc]; rfl) rfl
      exact hdone.of_channel (fun halive ↦ ⟨halive, rfl⟩) (List.Sublist.refl _)
  | unwound hpc => exact h.of_reader rfl (fun _ ↦ by rw [hpc]; rfl) rfl
  | read hpc _ =>
      obtain ⟨hmessages, hnext⟩ := ReaderTask.read_cases (r := s.reader) s.now
        s.livenessTimeoutMs _
      refine h.of_reader ?_ (fun _ ↦ by rw [hpc]; rfl) ?_
      · rw [ReaderTask.eventMessages, hmessages]
        rfl
      · rcases hnext with ⟨-, hnext⟩ | ⟨-, hnext⟩ <;> rw [hnext] <;> rfl
  | panicked hpc =>
      have hpanic : Accounted X { s.reader with pc := .panicked } s.delivery := by
        refine h.of_reader rfl (fun _ ↦ ?_) rfl
        rcases hpc with hpc | hpc <;> rw [hpc] <;> rfl
      exact hpanic.of_channel (fun halive ↦ ⟨halive, rfl⟩) (List.Sublist.refl _)
  | called _ => exact h
  | shutdown _ => exact h
  | livenessSet => exact h
  | commandTimeoutSet => exact h
  | received hrecv =>
      obtain ⟨a, rest, -, -, -, hlog, halive, -⟩ := BoundedChannel.of_recv hrecv
      exact h.of_channel (fun h' ↦ ⟨halive ▸ h', hlog⟩) (hlog ▸ List.Sublist.refl _)
  | streamDropped =>
      refine h.of_channel (fun h' ↦ nomatch h') ?_
      simp [BoundedChannel.log, BoundedChannel.dropReceiver]
  | ticked => exact h

theorem accounted_init (eventQueueSize : Nat) (parser : EslParser) :
    Accounted X (Connection.init eventQueueSize parser).reader
      (Connection.init eventQueueSize parser).delivery where
  delivered _ := ⟨[], rfl, List.Sublist.refl _, rfl⟩
  notifying := by
    intro result h
    cases h
  notices := le_refl 0
  count := rfl

theorem filter_value_eq {log : List Sent}
    (h : ∀ i ∈ log, isQueueFull i.value = i.isNotice) :
    (log.map Sent.value).filter (fun v ↦ !isQueueFull v) = log.filterMap Sent.result := by
  induction log with
  | nil => rfl
  | cons i log ih =>
      have hlog := ih fun j hj ↦ h j (List.mem_cons_of_mem _ hj)
      have hi := h i List.mem_cons_self
      cases i with
      | notice =>
          rw [List.map_cons, List.filter_cons_of_neg (by simp [hi, Sent.isNotice]), hlog]
          rfl
      | item number result =>
          rw [List.map_cons, List.filter_cons_of_pos (by simp [hi, Sent.isNotice]), hlog]
          rfl

/-- While the event stream is alive and no dispatch is under way, the items
received and queued are a subsequence of the results for the event messages, the
counter has the number of missing ones, and there are no more notices than
missing items. -/
theorem delivery_accounted (X : Crates) {eventQueueSize : Nat} {parser : EslParser}
    {as : List Act} {t : Connection}
    (hrun : run (Connection.step X) (.init eventQueueSize parser) as = some t)
    (hidle : t.reader.pc.inFlight = []) (halive : t.delivery.channel.receiverAlive = true)
    (hdrops : t.delivery.dropped.length < 2 ^ 64) :
    let values := (t.delivery.channel.received ++ t.delivery.channel.queue).map Sent.value
    (values.filter fun v ↦ !isQueueFull v).Sublist (t.reader.eventResults X) ∧
      (values.filter fun v ↦ !isQueueFull v).length + t.delivery.droppedEventCount.toNat =
        (t.reader.eventResults X).length ∧
      values.countP isQueueFull ≤ t.delivery.droppedEventCount.toNat := by
  intro values
  have hstep : ∀ (s : Connection) (a : Act) (t : Connection), Accounted X s.reader s.delivery →
      s.step X a = some t → Accounted X t.reader t.delivery :=
    fun _ _ _ hs ↦ accounted_step hs
  have h := invariant_of_run hstep (accounted_init eventQueueSize parser) hrun
  obtain ⟨past, hpast, hsub, hlength⟩ := h.delivered halive
  have hresults : t.reader.eventResults X = past := by
    rw [hpast, hidle, List.append_nil]
  have hcount : t.delivery.droppedEventCount.toNat = t.delivery.dropped.length := by
    rw [h.count, Nat.mod_eq_of_lt hdrops]
  -- an item of the log is the result for an event message, so it is no notice
  have hitem : ∀ i ∈ t.delivery.channel.log, isQueueFull i.value = i.isNotice := by
    intro i hi
    cases i with
    | notice => rfl
    | item number result =>
        have hmem : result ∈ t.reader.eventResults X := by
          rw [hresults]
          exact hsub.subset (List.mem_filterMap.mpr ⟨_, hi, rfl⟩)
        obtain ⟨m, -, rfl⟩ := List.mem_map.mp hmem
        exact isQueueFull_eventResult X m
  have hfilter : values.filter (fun v ↦ !isQueueFull v) =
      t.delivery.channel.log.filterMap Sent.result := by
    change (t.delivery.channel.log.map Sent.value).filter _ = _
    exact filter_value_eq hitem
  have hnotices : values.countP isQueueFull = t.delivery.channel.log.countP Sent.isNotice := by
    change (t.delivery.channel.log.map Sent.value).countP _ = _
    rw [List.countP_map]
    exact List.countP_congr fun i hi ↦ by simp [hitem i hi]
  have hbound := h.notices
  refine ⟨?_, ?_, ?_⟩
  · rw [hfilter, hresults]
    exact hsub
  · rw [hfilter, hresults, hcount]
    exact hlength
  · rw [hnotices, hcount]
    omega

theorem delivery_accounted_interruptedDispatch :
    ∃ t, run (Connection.step .percentOnly) (.init 1 EslParser.new) interruptedDispatch = some t ∧
      t.delivery.droppedEventCount.toNat = 1 ∧
      (((t.delivery.channel.received ++ t.delivery.channel.queue).map Sent.value).filter
        fun v ↦ !isQueueFull v).length = 2 ∧
      (t.reader.eventResults .percentOnly).length = 3 := by
  have hrun : (run (Connection.step .percentOnly) (.init 1 EslParser.new) interruptedDispatch).any
      (fun t ↦ t.reader.pc.inFlight.isEmpty = true ∧ t.delivery.channel.receiverAlive = true ∧
        t.delivery.dropped = [2] ∧ t.delivery.droppedEventCount = 1 ∧
        t.reader.eventMessages.length = 3) = true := by
    decide +kernel
  obtain ⟨t, ht, hidle, halive, hdropped, hcount, hevents⟩ := exists_run_of_any hrun
  have hdrops : t.delivery.dropped.length < 2 ^ 64 := by
    rw [hdropped]
    decide
  obtain ⟨-, hlength, -⟩ := delivery_accounted .percentOnly ht (List.isEmpty_iff.mp hidle) halive
    hdrops
  have hresults : (t.reader.eventResults .percentOnly).length = 3 := by
    rw [ReaderTask.eventResults, List.length_map, hevents]
  have hone : t.delivery.droppedEventCount.toNat = 1 := by
    rw [hcount]
    rfl
  exact ⟨t, ht, hone, by omega, hresults⟩

/-! ## Gaps and notices -/

/-- Between two received items with a dropped one between them, and no other item,
the application receives a notice. -/
def GapsAnnounced (d : Delivery) : Prop :=
  ∀ (before mid after : List Sent) (m n : Nat) (x y : EslResult EslEvent),
    d.channel.received = before ++ .item m x :: (mid ++ .item n y :: after) →
    (∀ i ∈ mid, i.isNotice = true) → (∃ k ∈ d.dropped, m < k ∧ k < n) → .notice ∈ mid

/-- Nothing was dropped between two items that follow each other directly. -/
def Gapless (dropped : List Nat) : Sent → Sent → Prop
  | .item m _, .item n _ => ∀ k ∈ dropped, ¬ (m < k ∧ k < n)
  | _, _ => True

/-- Items that follow each other directly have no gap, and the overflow flag tells
of a gap behind the last item. -/
structure Announced (r : ReaderTask) (d : Delivery) : Prop where
  chain : d.channel.log.IsChain (Gapless d.dropped)
  item_le : ∀ n result, .item n result ∈ d.channel.log →
    n + r.pc.inFlight.length ≤ r.eventMessages.length
  dropped_le : ∀ n ∈ d.dropped, n + r.pc.inFlight.length ≤ r.eventMessages.length
  last : d.channel.receiverAlive = true → d.eventOverflow = false →
    ∀ m result, d.channel.log.getLast? = some (.item m result) → ∀ k ∈ d.dropped, k ≤ m
  notifying : ∀ result, r.pc = .notifying result → d.eventOverflow = true
  full : ∀ result, r.pc = .sending result → d.channel.receiverAlive = true →
    ∀ m x, d.channel.log.getLast? = some (.item m x) → (∃ k ∈ d.dropped, m < k) →
      d.channel.queue.length = d.channel.capacity

/-- The reader is about to send an item, and the last value in the queue is an item
behind which others were dropped. -/
def Connection.gapOpen (s : Connection) : Bool :=
  match s.reader.pc, s.delivery.channel.queue.getLast? with
  | .sending _, some (.item m _) => s.delivery.dropped.any fun k ↦ m < k
  | _, _ => false

/-- The application does not receive while a gap is open, which would let the item
in that the notice should come before. -/
def Uninterrupted (s : Connection) (a : Act) : Prop :=
  match a with
  | .recv => s.gapOpen = false
  | _ => True

instance (s : Connection) : (a : Act) → Decidable (Uninterrupted s a)
  | .recv => inferInstanceAs (Decidable (s.gapOpen = false))
  | .reader | .read _ | .panic | .call _ _ | .disconnect | .setLivenessTimeout _
  | .setCommandTimeout _ | .dropStream | .tick _ => .isTrue trivial

namespace Announced

variable {r r' : ReaderTask} {d d' : Delivery}

theorem of_reader (h : Announced r d) (hmessages : r'.eventMessages = r.eventMessages)
    (hpc : r'.pc.inFlight = []) : Announced r' d := by
  have hle : ∀ n, n + r.pc.inFlight.length ≤ r.eventMessages.length →
      n + r'.pc.inFlight.length ≤ r'.eventMessages.length := by
    intro n hn
    rw [hpc, hmessages]
    simp only [List.length_nil]
    omega
  refine ⟨h.chain, fun n result hmem ↦ hle n (h.item_le n result hmem),
    fun n hmem ↦ hle n (h.dropped_le n hmem), h.last, ?_, ?_⟩
  all_goals
    intro result hresult
    rw [hresult] at hpc
    cases hpc

theorem parse (h : Announced r d) (hpc : r.pc = .parsing) :
    Announced (r.parse X d.eventOverflow) d := by
  rcases ReaderTask.parse_cases (X := X) d.eventOverflow hpc with
    ⟨m, hm, hmessages, -, hnext⟩ | ⟨m, hm, hmessages, -, hnext⟩ | ⟨ms, hms, hmessages, hnext⟩
  · have hevents := ReaderTask.eventMessages_of_event hmessages hm
    have hle : ∀ n, n + r.pc.inFlight.length ≤ r.eventMessages.length →
        n + (r.parse X d.eventOverflow).pc.inFlight.length ≤
          (r.parse X d.eventOverflow).eventMessages.length := by
      intro n hn
      have hone : (r.parse X d.eventOverflow).pc.inFlight.length = 1 := by
        rw [hnext]
        split <;> rfl
      rw [hone, hevents, List.length_append, List.length_singleton]
      omega
    refine ⟨h.chain, fun n result hmem ↦ hle n (h.item_le n result hmem),
      fun n hmem ↦ hle n (h.dropped_le n hmem), h.last, ?_, ?_⟩
    · intro result hresult
      rw [hnext] at hresult
      split at hresult
      · assumption
      · cases hresult
    · -- an item goes first only without the overflow flag
      rintro result hresult halive k x hlast ⟨n, hn, hlt⟩
      have hopen : d.eventOverflow = false := by
        by_contra hset
        rw [hnext, if_pos (by simpa using hset)] at hresult
        cases hresult
      have hle := h.last halive hopen k x hlast n hn
      omega
  · refine h.of_reader (ReaderTask.eventMessages_of_ne hmessages ?_) (by rw [hnext]; rfl)
    simp only [List.mem_singleton, forall_eq]
    rcases hm with hm | hm <;> simp [hm]
  · refine h.of_reader (ReaderTask.eventMessages_of_ne hmessages fun m hm ↦ (hms m hm).1) ?_
    rcases hnext with ⟨-, hnext | hnext⟩ | ⟨-, hnext⟩ <;> rw [hnext] <;> rfl

theorem chain_append (h : Announced r d) {i : Sent}
    (hi : ∀ m result, d.channel.log.getLast? = some (.item m result) →
      Gapless d.dropped (.item m result) i) :
    (d.channel.log ++ [i]).IsChain (Gapless d.dropped) := by
  refine h.chain.append (List.IsChain.singleton i) ?_
  intro a ha b hb
  obtain rfl : i = b := by simpa using hb
  cases a with
  | notice => trivial
  | item m result => exact hi m result ha

theorem notify (h : Announced r d) {result : EslResult EslEvent} (hpc : r.pc = .notifying result)
    {sent : BoundedChannel.SendResult} (hnotify : d.notify = (sent, d'))
    (hopen : sent ≠ .closed) : Announced { r with pc := .sending result } d' := by
  have hitem := h.item_le
  have hdropped_le := h.dropped_le
  rw [hpc] at hitem hdropped_le
  rcases Delivery.notify_cases hnotify with
    ⟨-, halive, -, -, hlog, -, hflag, -, hdropped⟩ | ⟨-, rfl, -, hfull⟩ | ⟨rfl, -⟩
  · refine ⟨?_, ?_, hdropped ▸ hdropped_le, ?_, by simp, ?_⟩
    · rw [hlog, hdropped]
      exact h.chain_append fun _ _ _ ↦ trivial
    · intro n result' hmem
      rw [hlog] at hmem
      exact hitem n result' (by simpa using hmem)
    · intro _ _ m result' hlast
      rw [hlog, List.getLast?_append] at hlast
      cases hlast
    · intro _ _ _ m x hlast
      rw [hlog, List.getLast?_append] at hlast
      cases hlast
  · exact ⟨h.chain, hitem, hdropped_le, h.last, by simp, fun _ _ _ _ _ _ _ ↦ hfull⟩
  · exact absurd rfl hopen

theorem send (h : Announced r d) {result : EslResult EslEvent} (hpc : r.pc = .sending result)
    {sent : BoundedChannel.SendResult}
    (hsend : d.send r.eventMessages.length result = (sent, d')) {pc : ReaderPc}
    (hidle : pc.inFlight = []) : Announced { r with pc := pc } d' := by
  have hitem : ∀ n result', .item n result' ∈ d.channel.log → n < r.eventMessages.length := by
    intro n result' hmem
    have hle := h.item_le n result' hmem
    rw [hpc] at hle
    exact hle
  have hdropped_lt : ∀ n ∈ d.dropped, n < r.eventMessages.length := by
    intro n hmem
    have hle := h.dropped_le n hmem
    rw [hpc] at hle
    exact hle
  have hnot : ∀ result', pc ≠ .notifying result' ∧ pc ≠ .sending result' := by
    intro result'
    constructor
    all_goals
      rintro rfl
      cases hidle
  have hnotifying : ∀ {b : Bool} result', pc = .notifying result' → b = true :=
    fun result' h' ↦ absurd h' (hnot result').1
  rcases Delivery.send_cases hsend with
    ⟨-, halive, -, hspace, hlog, -, hflag, -, hdropped⟩ | ⟨-, -, -, rfl⟩ | ⟨-, rfl, hdead⟩
  · refine ⟨?_, ?_, ?_, ?_, hnotifying, ?_⟩
    · rw [hlog, hdropped]
      apply h.chain_append
      intro m result' hlast k hk hbetween
      -- the failed notice has left the queue full
      have hfull := h.full result hpc halive m result' hlast ⟨k, hk, hbetween.1⟩
      omega
    · intro n result' hmem
      rw [hidle]
      rw [hlog] at hmem
      rcases List.mem_append.mp hmem with hmem | hmem
      · exact (hitem n result' hmem).le
      · obtain ⟨rfl, -⟩ := Sent.item.inj (List.mem_singleton.mp hmem)
        exact le_refl _
    · intro n hmem
      rw [hidle]
      rw [hdropped] at hmem
      exact (hdropped_lt n hmem).le
    · intro _ _ m result' hlast k hk
      rw [hlog, List.getLast?_append] at hlast
      obtain ⟨rfl, -⟩ := Sent.item.inj (Option.some.inj hlast)
      rw [hdropped] at hk
      exact (hdropped_lt k hk).le
    · intro result' h'
      exact absurd h' (hnot result').2
  · refine ⟨?_, ?_, ?_, ?_, fun _ _ ↦ rfl, ?_⟩
    · refine h.chain.imp_of_mem_imp ?_
      intro a b _ hb hab
      cases a with
      | notice => trivial
      | item m x =>
          cases b with
          | notice => trivial
          | item n y =>
              intro k hk
              rcases List.mem_append.mp hk with hk | hk
              · exact hab k hk
              · obtain rfl := List.mem_singleton.mp hk
                have hlt := hitem n y hb
                omega
    · intro n result' hmem
      rw [hidle]
      exact (hitem n result' hmem).le
    · intro n hmem
      rw [hidle]
      rcases List.mem_append.mp hmem with hmem | hmem
      · exact (hdropped_lt n hmem).le
      · exact (List.mem_singleton.mp hmem).le
    · intro _ hflag
      cases hflag
    · intro result' h'
      exact absurd h' (hnot result').2
  · refine ⟨h.chain, ?_, ?_, ?_, hnotifying, ?_⟩
    · intro n result' hmem
      rw [hidle]
      exact (hitem n result' hmem).le
    · intro n hmem
      rw [hidle]
      exact (hdropped_lt n hmem).le
    · intro halive
      rw [hdead] at halive
      cases halive
    · intro result' h'
      exact absurd h' (hnot result').2

theorem of_channel (h : Announced r d) {channel : BoundedChannel Sent}
    (halive : channel.receiverAlive = true → d.channel.receiverAlive = true)
    (hlog : channel.log = d.channel.log)
    (hfull : ∀ result, r.pc = .sending result → channel.receiverAlive = true →
      ∀ m x, d.channel.log.getLast? = some (.item m x) → (∃ k ∈ d.dropped, m < k) →
        channel.queue.length = channel.capacity) :
    Announced r { d with channel := channel } := by
  refine ⟨?_, ?_, h.dropped_le, ?_, h.notifying, hlog ▸ hfull⟩
  · dsimp only
    rw [hlog]
    exact h.chain
  · dsimp only
    rw [hlog]
    exact h.item_le
  · intro halive'
    dsimp only
    rw [hlog]
    exact h.last (halive halive')

end Announced

theorem announced_step {s t : Connection} {a : Act} (h : Announced s.reader s.delivery)
    (hun : Uninterrupted s a) (hstep : s.step X a = some t) : Announced t.reader t.delivery := by
  cases Connection.effect_of_step X hstep with
  | parsed hpc => exact h.parse hpc
  | noticed hpc hnotify hopen => exact h.notify hpc hnotify hopen
  | noticeRefused hpc hnotify =>
      obtain ⟨rfl, -⟩ := Delivery.of_notify_closed hnotify
      exact h.of_reader rfl rfl
  | dispatched hpc hsend _ => exact h.send hpc hsend rfl
  | itemRefused hpc hsend => exact h.send hpc hsend rfl
  | replied _ => exact h.of_reader rfl rfl
  | returned _ =>
      have hdone : Announced { s.reader with pc := .done } s.delivery := h.of_reader rfl rfl
      exact hdone.of_channel id rfl (by simp)
  | unwound _ => exact h.of_reader rfl rfl
  | read hpc _ =>
      obtain ⟨hmessages, hnext⟩ := ReaderTask.read_cases (r := s.reader) s.now
        s.livenessTimeoutMs _
      refine h.of_reader ?_ ?_
      · rw [ReaderTask.eventMessages, hmessages]
        rfl
      · rcases hnext with ⟨-, hnext⟩ | ⟨-, hnext⟩ <;> rw [hnext] <;> rfl
  | panicked _ =>
      have hpanic : Announced { s.reader with pc := .panicked } s.delivery := h.of_reader rfl rfl
      exact hpanic.of_channel id rfl (by simp)
  | called _ => exact h
  | shutdown _ => exact h
  | livenessSet => exact h
  | commandTimeoutSet => exact h
  | received hrecv =>
      obtain ⟨a, rest, hqueue, -, -, hlog, halive, -⟩ := BoundedChannel.of_recv hrecv
      refine h.of_channel (fun h' ↦ halive ▸ h') hlog ?_
      rintro result hpc - m x hlast ⟨k, hk, hlt⟩
      have hlast' : s.delivery.channel.queue.getLast? = some (.item m x) := by
        rwa [BoundedChannel.log, List.getLast?_append_of_ne_nil _ (by simp [hqueue])] at hlast
      have hgap : s.gapOpen = false := hun
      rw [Connection.gapOpen, hpc, hlast'] at hgap
      exact absurd hlt (by simpa using List.any_eq_false.mp hgap k hk)
  | streamDropped =>
      have hsent : s.delivery.channel.dropReceiver.log <+: s.delivery.channel.log := by
        simp [BoundedChannel.log, BoundedChannel.dropReceiver]
      have hchain := h.chain.prefix hsent
      refine ⟨hchain, ?_, h.dropped_le, ?_, h.notifying, ?_⟩
      · intro n result hmem
        exact h.item_le n result (hsent.subset hmem)
      · intro halive
        cases halive
      · intro _ _ halive
        cases halive
  | ticked => exact h

theorem announced_init (eventQueueSize : Nat) (parser : EslParser) :
    Announced (Connection.init eventQueueSize parser).reader
      (Connection.init eventQueueSize parser).delivery where
  chain := List.IsChain.nil
  item_le := by
    intro n result h
    cases h
  dropped_le := by
    intro n h
    cases h
  last := by
    intro _ _ m result h
    cases h
  notifying := by
    intro result h
    cases h
  full := by
    intro result h
    cases h

/-- If the application never receives between a failed notice and the item behind
it, then every gap is announced. -/
theorem gap_announced (X : Crates) {eventQueueSize : Nat} {parser : EslParser}
    {as : List Act} {t : Connection}
    (hrun : run (Connection.step X) (.init eventQueueSize parser) as = some t)
    (hmeets : Meets (Connection.step X) Uninterrupted (.init eventQueueSize parser) as) :
    GapsAnnounced t.delivery := by
  have hstep : ∀ (s : Connection) (a : Act) (t : Connection), Announced s.reader s.delivery →
      Uninterrupted s a → s.step X a = some t → Announced t.reader t.delivery :=
    fun _ _ _ hs hun ↦ announced_step hs hun
  have h := invariant_of_meets hstep (announced_init eventQueueSize parser) hrun hmeets
  intro before mid after m n x y hreceived hmid hgap
  cases mid with
  | cons i mid =>
      have hi := hmid i List.mem_cons_self
      cases i with
      | notice => exact List.mem_cons_self
      | item k z => cases hi
  | nil =>
      -- the two items would follow each other directly
      obtain ⟨k, hk, hlt⟩ := hgap
      have hpair : [Sent.item m x, .item n y] <:+: t.delivery.channel.log := by
        refine ⟨before, after ++ t.delivery.channel.queue, ?_⟩
        rw [BoundedChannel.log, hreceived]
        simp
      have hchain := h.chain.infix hpair
      have hgapless : Gapless t.delivery.dropped (.item m x) (.item n y) := by
        simpa using hchain
      exact absurd hlt (hgapless k hk)

theorem gap_announced_announcedDispatch :
    ∃ t, run (Connection.step .percentOnly) (.init 1 EslParser.new) announcedDispatch = some t ∧
      t.delivery.channel.received.map Sent.number = [some 1, none, some 3] ∧
      t.delivery.dropped = [2] ∧ GapsAnnounced t.delivery := by
  have hrun : (run (Connection.step .percentOnly) (.init 1 EslParser.new) announcedDispatch).any
      (fun t ↦ t.delivery.channel.received.map Sent.number = [some 1, none, some 3] ∧
        t.delivery.dropped = [2]) = true := by
    decide +kernel
  obtain ⟨t, ht, hreceived, hdropped⟩ := exists_run_of_any hrun
  refine ⟨t, ht, hreceived, hdropped, gap_announced .percentOnly ht ?_⟩
  decide +kernel

theorem not_gapsAnnounced_interruptedDispatch :
    ¬ ∀ (X : Crates) (eventQueueSize : Nat) (parser : EslParser) (as : List Act) (t : Connection),
      run (Connection.step X) (.init eventQueueSize parser) as = some t →
        GapsAnnounced t.delivery := by
  intro h
  have hrun : (run (Connection.step .percentOnly) (.init 1 EslParser.new) interruptedDispatch).any
      (fun t ↦ t.delivery.channel.received.map Sent.number = [some 1, some 3] ∧
        t.delivery.dropped = [2]) = true := by
    decide +kernel
  obtain ⟨t, ht, hreceived, hdropped⟩ := exists_run_of_any hrun
  obtain ⟨first, rest, hpair, hfirst, hrest⟩ := List.map_eq_cons_iff.mp hreceived
  obtain ⟨second, rest, rfl, hsecond, hnil⟩ := List.map_eq_cons_iff.mp hrest
  obtain rfl := List.map_eq_nil_iff.mp hnil
  cases first with
  | notice => cases hfirst
  | item m x =>
      cases second with
      | notice => cases hsecond
      | item n y =>
          obtain rfl : m = 1 := Option.some.inj hfirst
          obtain rfl : n = 3 := Option.some.inj hsecond
          have hnotice := h _ _ _ _ t ht [] [] [] 1 3 x y hpair (by simp)
            ⟨2, by rw [hdropped]; simp, by decide⟩
          cases hnotice

end FreeswitchEsl
