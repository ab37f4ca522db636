import FreeswitchEsl.Connection.Overflow

/-!
# After an overflow

The notice that ends an overflow episode takes a slot of the queue.  A queue with
room for one value has none left for the event behind it, which starts the next
episode, and the application receives only notices although it keeps up.
-/

namespace FreeswitchEsl

open Text Transition

variable (X : Crates)

/-! ## Dispatching -/

/-- `dispatch_event`: whether the reader goes on, and what it leaves. -/
def Delivery.dispatchEvent (d : Delivery) (number : Nat) (item : EslResult EslEvent) :
    Bool × Delivery :=
  if d.eventOverflow then
    match d.notify with
    | (.closed, d') => (false, d')
    | (_, d') =>
        match d'.send number item with
        | (.closed, d'') => (false, d'')
        | (_, d'') => (true, d'')
  else
    match d.send number item with
    | (.closed, d') => (false, d')
    | (_, d') => (true, d')

/-- The item is sent and nothing is dropped. -/
def Delivery.Enqueues (d : Delivery) (number : Nat) (item : EslResult EslEvent) : Prop :=
  (d.dispatchEvent number item).1 = true ∧
    (d.dispatchEvent number item).2.channel.queue.getLast? = some (.item number item) ∧
      (d.dispatchEvent number item).2.dropped = d.dropped

/-- The next step of the reader parses an event and calls `dispatch_event`. -/
def Connection.dispatches (s : Connection) : Bool :=
  match s.reader.pc with
  | .parsing => !(s.reader.parse X s.delivery.eventOverflow).pc.inFlight.isEmpty
  | _ => false

/-- The application has drained the queue whenever an event is dispatched. -/
def KeepsUp (s : Connection) (a : Act) : Prop :=
  match a with
  | .reader => s.dispatches X = true → s.delivery.channel.queue.isEmpty = true
  | _ => True

/-- Between two states nothing is dropped: every event that was dispatched has been
sent, and the notice of an open overflow episode, if there is one, has been sent once
with the first of them. -/
def NothingLost (s t : Connection) : Prop :=
  ∃ since, t.delivery.channel.log = s.delivery.channel.log ++ since ∧
    t.reader.eventResults X =
      s.reader.eventResults X ++ since.filterMap Sent.result ++ t.reader.pc.inFlight ∧
    t.delivery.dropped = s.delivery.dropped ∧
    since.countP Sent.isNotice + t.delivery.eventOverflow.toNat = s.delivery.eventOverflow.toNat ∧
    (since ≠ [] → t.delivery.eventOverflow = false)

/-- A drained queue takes the next event, and while the application keeps up no event
is lost. -/
structure Connection.Recovers (s : Connection) : Prop where
  enqueues : ∀ number item, s.delivery.Enqueues number item
  keepsUp : ∀ as t, run (Connection.step X) s as = some t →
    Meets (Connection.step X) (KeepsUp X) s as → t.delivery.channel.receiverAlive = true →
      NothingLost X s t

namespace Delivery

variable {d d' : Delivery} {r : BoundedChannel.SendResult} {number : Nat}
  {item : EslResult EslEvent}

theorem notify_of_lt (halive : d.channel.receiverAlive = true)
    (hspace : d.channel.queue.length < d.channel.capacity) :
    d.notify = (.ok,
      { d with channel := d.channel.push .notice hspace, eventOverflow := false }) := by
  unfold notify
  rw [BoundedChannel.trySend_of_lt halive hspace]

theorem send_of_lt (halive : d.channel.receiverAlive = true)
    (hspace : d.channel.queue.length < d.channel.capacity) :
    d.send number item =
      (.ok, { d with channel := d.channel.push (.item number item) hspace }) := by
  unfold send
  rw [BoundedChannel.trySend_of_lt halive hspace]

theorem send_of_full (halive : d.channel.receiverAlive = true)
    (hfull : d.channel.queue.length = d.channel.capacity) :
    d.send number item =
      (.full, ⟨d.channel, true, d.droppedEventCount + 1, d.dropped ++ [number]⟩) := by
  unfold send
  rw [BoundedChannel.trySend_of_full halive hfull]

theorem enqueues_of_clear (hflag : d.eventOverflow = false)
    (halive : d.channel.receiverAlive = true)
    (hspace : d.channel.queue.length < d.channel.capacity) : d.Enqueues number item := by
  have hdispatch : d.dispatchEvent number item =
      (true, { d with channel := d.channel.push (.item number item) hspace }) := by
    simp [dispatchEvent, hflag, send_of_lt halive hspace]
  rw [Enqueues, hdispatch]
  exact ⟨rfl, List.getLast?_concat, rfl⟩

theorem enqueues_of_notice (hflag : d.eventOverflow = true)
    (halive : d.channel.receiverAlive = true)
    (hspace : d.channel.queue.length + 1 < d.channel.capacity) : d.Enqueues number item := by
  have hspace' : (d.channel.push .notice (by omega)).queue.length < d.channel.capacity := by
    rw [BoundedChannel.length_queue_push]
    exact hspace
  have hsend := @send_of_lt
    { d with channel := d.channel.push .notice (by omega), eventOverflow := false } number item
    halive hspace'
  have hdispatch : d.dispatchEvent number item =
      (true, { d with
        channel := (d.channel.push .notice (by omega)).push (.item number item) hspace'
        eventOverflow := false }) := by
    rw [dispatchEvent, if_pos hflag, notify_of_lt halive (by omega)]
    dsimp only
    rw [hsend]
  rw [Enqueues, hdispatch]
  exact ⟨rfl, List.getLast?_concat, rfl⟩

/-- The notice fills the queue, and the item behind it is dropped. -/
theorem dropped_of_notice (hflag : d.eventOverflow = true)
    (halive : d.channel.receiverAlive = true)
    (hspace : d.channel.queue.length + 1 = d.channel.capacity) :
    (d.dispatchEvent number item).2.dropped = d.dropped ++ [number] := by
  have hfull : (d.channel.push .notice (by omega)).queue.length = d.channel.capacity := by
    rw [BoundedChannel.length_queue_push]
    exact hspace
  have hsend := @send_of_full
    { d with channel := d.channel.push .notice (by omega), eventOverflow := false } number item
    halive hfull
  rw [dispatchEvent, if_pos hflag, notify_of_lt halive (by omega)]
  dsimp only
  rw [hsend]

/-- The notice of an open episode finds no room, and neither does the item. -/
theorem dropped_of_full (halive : d.channel.receiverAlive = true)
    (hfull : d.channel.queue.length = d.channel.capacity) :
    (d.dispatchEvent number item).2.dropped = d.dropped ++ [number] := by
  have hnotify : d.notify = (.full, d) := by
    unfold notify
    rw [BoundedChannel.trySend_of_full halive hfull]
  rw [dispatchEvent, hnotify]
  dsimp only
  rw [send_of_full halive hfull]
  split <;> rfl

/-- An open stream takes the item when the queue has room for it and for the notice of an
open episode, and drops it otherwise. -/
theorem enqueues_or_dropped (number : Nat) (item : EslResult EslEvent)
    (halive : d.channel.receiverAlive = true) :
    if d.channel.queue.length + d.eventOverflow.toNat < d.channel.capacity then
      d.Enqueues number item
    else (d.dispatchEvent number item).2.dropped = d.dropped ++ [number] := by
  have hle := d.channel.queue_le
  cases hflag : d.eventOverflow with
  | false =>
      rw [Bool.toNat_false]
      split
      · rename_i hspace
        exact enqueues_of_clear hflag halive hspace
      · exact dropped_of_full halive (by omega)
  | true =>
      rw [Bool.toNat_true]
      split
      · rename_i hspace
        exact enqueues_of_notice hflag halive hspace
      · by_cases hfull : d.channel.queue.length = d.channel.capacity
        · exact dropped_of_full halive hfull
        · exact dropped_of_notice hflag halive (by omega)

theorem notify_open (halive : d.channel.receiverAlive = true) :
    ∃ r d', d.notify = (r, d') ∧ r ≠ .closed ∧ d'.channel.receiverAlive = true := by
  cases hnotify : d.notify with
  | mk r d' =>
      refine ⟨r, d', rfl, ?_⟩
      rcases notify_cases hnotify with ⟨rfl, -, hd', -⟩ | ⟨rfl, rfl, -⟩ | ⟨-, -, hdead⟩
      · exact ⟨nofun, hd'⟩
      · exact ⟨nofun, halive⟩
      · rw [hdead] at halive
        cases halive

theorem send_open (number : Nat) (item : EslResult EslEvent)
    (halive : d.channel.receiverAlive = true) :
    ∃ r d', d.send number item = (r, d') ∧ r ≠ .closed := by
  cases hsend : d.send number item with
  | mk r d' =>
      refine ⟨r, d', rfl, ?_⟩
      rintro rfl
      obtain ⟨-, hdead⟩ := of_send_closed hsend
      rw [hdead] at halive
      cases halive

theorem dispatchEvent_of_closed (halive : d.channel.receiverAlive = false) :
    d.dispatchEvent number item = (false, d) := by
  have htry : ∀ i, d.channel.trySend i = (.closed, d.channel) :=
    fun _ ↦ BoundedChannel.trySend_of_closed halive
  unfold dispatchEvent notify send
  split <;> simp only [htry]

/-- An empty queue takes the item unless a notice fills it. -/
theorem enqueues_iff (hempty : d.channel.queue = []) :
    d.Enqueues number item ↔ d.channel.receiverAlive = true ∧
      (d.eventOverflow = false ∨ 2 ≤ d.channel.capacity) := by
  have hpos := d.channel.capacity_pos
  have hlength : d.channel.queue.length = 0 := by
    rw [hempty]
    rfl
  constructor
  · rintro ⟨hgoes, -, hdropped⟩
    have halive : d.channel.receiverAlive = true := by
      by_contra hdead
      rw [dispatchEvent_of_closed (by simpa using hdead)] at hgoes
      cases hgoes
    refine ⟨halive, ?_⟩
    by_contra hnot
    obtain ⟨hflag, hone⟩ := not_or.mp hnot
    have hcases := enqueues_or_dropped number item halive
    rw [Bool.eq_true_of_not_eq_false hflag, Bool.toNat_true, if_neg (by omega), hdropped] at hcases
    simp at hcases
  · rintro ⟨halive, hroom⟩
    have hspace : d.channel.queue.length + d.eventOverflow.toNat < d.channel.capacity := by
      rcases hroom with hclear | htwo
      · rw [hclear, Bool.toNat_false]
        omega
      · have hnotice := d.eventOverflow.toNat_le
        omega
    have hcases := enqueues_or_dropped number item halive
    rwa [if_pos hspace] at hcases

end Delivery

/-! ## Keeping up -/

/-- What the steps keep from a state in which a drained queue takes the next event. -/
structure Recovered (X : Crates) (s t : Connection) : Prop where
  nothingLost : NothingLost X s t
  room : t.delivery.eventOverflow = false ∨ 2 ≤ t.delivery.channel.capacity
  notifying : ∀ result, t.reader.pc = .notifying result →
    t.delivery.eventOverflow = true ∧ t.delivery.channel.queue = []
  sending : ∀ result, t.reader.pc = .sending result →
    t.delivery.eventOverflow = false ∧
      t.delivery.channel.queue.length < t.delivery.channel.capacity

variable {X}

namespace Recovered

variable {s t u : Connection}

theorem refl (h : s.delivery.eventOverflow = false ∨ 2 ≤ s.delivery.channel.capacity)
    (hidle : s.reader.pc.inFlight = []) : Recovered X s s where
  nothingLost := by
    refine ⟨[], ?_, ?_, rfl, ?_, ?_⟩
    · rw [List.append_nil]
    · rw [hidle, List.filterMap_nil, List.append_nil, List.append_nil]
    · rw [List.countP_nil, Nat.zero_add]
    · exact fun hne ↦ absurd rfl hne
  room := h
  notifying := by
    intro result hpc
    rw [hpc] at hidle
    cases hidle
  sending := by
    intro result hpc
    rw [hpc] at hidle
    cases hidle

/-- The step dispatches nothing; the application may receive. -/
theorem of_idle (h : Recovered X s t) (hevents : u.reader.eventMessages = t.reader.eventMessages)
    (hidle : t.reader.pc.inFlight = []) (hidle' : u.reader.pc.inFlight = [])
    (hlog : u.delivery.channel.log = t.delivery.channel.log)
    (hcapacity : u.delivery.channel.capacity = t.delivery.channel.capacity)
    (hdropped : u.delivery.dropped = t.delivery.dropped)
    (hflag : u.delivery.eventOverflow = t.delivery.eventOverflow) : Recovered X s u where
  nothingLost := by
    obtain ⟨since, hsince, hresults, hrest⟩ := h.nothingLost
    refine ⟨since, by rw [hlog, hsince], ?_, ?_⟩
    · rw [ReaderTask.eventResults, hevents, hidle']
      rw [hidle] at hresults
      exact hresults
    · rw [hdropped, hflag]
      exact hrest
  room := by
    rw [hflag, hcapacity]
    exact h.room
  notifying := by
    intro result hpc
    rw [hpc] at hidle'
    cases hidle'
  sending := by
    intro result hpc
    rw [hpc] at hidle'
    cases hidle'

theorem of_recv (h : Recovered X s t) {channel : BoundedChannel Sent}
    (hrecv : t.delivery.channel.recv = some channel) :
    Recovered X s { t with delivery := { t.delivery with channel := channel } } := by
  obtain ⟨i, rest, hqueue, hrest, -, hlog, -, hcapacity⟩ := BoundedChannel.of_recv hrecv
  refine ⟨?_, ?_, ?_, ?_⟩
  · obtain ⟨since, hsince, hothers⟩ := h.nothingLost
    exact ⟨since, hlog.trans hsince, hothers⟩
  · dsimp only
    rw [hcapacity]
    exact h.room
  · intro result hpc
    obtain ⟨-, hempty⟩ := h.notifying result hpc
    rw [hempty] at hqueue
    cases hqueue
  · intro result hpc
    obtain ⟨hflag, hspace⟩ := h.sending result hpc
    refine ⟨hflag, ?_⟩
    dsimp only
    rw [hqueue, List.length_cons] at hspace
    rw [hrest, hcapacity]
    omega

theorem parse (h : Recovered X s t) (hpc : t.reader.pc = .parsing) (hkeeps : KeepsUp X t .reader) :
    Recovered X s { t with reader := t.reader.parse X t.delivery.eventOverflow } := by
  have hidle : t.reader.pc.inFlight = [] := by
    rw [hpc]
    rfl
  rcases ReaderTask.parse_cases (X := X) t.delivery.eventOverflow hpc with
    ⟨m, hm, hmessages, -, hnext⟩ | ⟨m, hm, hmessages, -, hnext⟩ | ⟨ms, hms, hmessages, hnext⟩
  · have hflight : (t.reader.parse X t.delivery.eventOverflow).pc.inFlight =
        [m.eventResult X] := by
      rw [hnext]
      split <;> rfl
    have hempty : t.delivery.channel.queue = [] := by
      apply List.isEmpty_iff.mp
      apply hkeeps
      rw [Connection.dispatches, hpc]
      dsimp only
      rw [hflight]
      rfl
    refine ⟨?_, h.room, ?_, ?_⟩
    · obtain ⟨since, hsince, hresults, hothers⟩ := h.nothingLost
      refine ⟨since, hsince, ?_, hothers⟩
      dsimp only
      rw [hidle, List.append_nil] at hresults
      rw [hflight, ReaderTask.eventResults, ReaderTask.eventMessages_of_event hmessages hm,
        List.map_append, ← ReaderTask.eventResults, hresults]
      rfl
    · intro result hresult
      dsimp only at hresult
      rw [hnext] at hresult
      split at hresult
      · rename_i hflag
        exact ⟨hflag, hempty⟩
      · cases hresult
    · intro result hresult
      dsimp only at hresult
      rw [hnext] at hresult
      split at hresult
      · cases hresult
      · rename_i hflag
        refine ⟨by simpa using hflag, ?_⟩
        dsimp only
        rw [hempty]
        exact t.delivery.channel.capacity_pos
  · refine h.of_idle (ReaderTask.eventMessages_of_ne hmessages ?_) hidle ?_ rfl rfl rfl rfl
    · simp only [List.mem_singleton, forall_eq]
      rcases hm with hm | hm <;> simp [hm]
    · dsimp only
      rw [hnext]
      rfl
  · refine h.of_idle (ReaderTask.eventMessages_of_ne hmessages fun m hm ↦ (hms m hm).1) hidle ?_
      rfl rfl rfl rfl
    dsimp only
    rcases hnext with ⟨-, hnext | hnext⟩ | ⟨-, hnext⟩ <;> rw [hnext] <;> rfl

/-- The notice goes first, and there is room for the item behind it. -/
theorem notify (h : Recovered X s t) {result : EslResult EslEvent}
    (hpc : t.reader.pc = .notifying result) (halive : t.delivery.channel.receiverAlive = true)
    {sent : BoundedChannel.SendResult} {d : Delivery} (hnotify : t.delivery.notify = (sent, d)) :
    Recovered X s { t with delivery := d, reader := { t.reader with pc := .sending result } } := by
  obtain ⟨hflag, hempty⟩ := h.notifying result hpc
  have htwo : 2 ≤ t.delivery.channel.capacity := by
    rcases h.room with hclear | htwo
    · rw [hflag] at hclear
      cases hclear
    · exact htwo
  have hspace : t.delivery.channel.queue.length < t.delivery.channel.capacity := by
    rw [hempty]
    exact t.delivery.channel.capacity_pos
  rw [Delivery.notify_of_lt halive hspace] at hnotify
  obtain ⟨-, rfl⟩ := Prod.mk.inj hnotify
  refine ⟨?_, Or.inl rfl, nofun, fun _ _ ↦ ⟨rfl, ?_⟩⟩
  · obtain ⟨since, hsince, hresults, hdropped, hnotices, -⟩ := h.nothingLost
    refine ⟨since ++ [.notice], ?_, ?_, hdropped, ?_, fun _ ↦ rfl⟩
    · dsimp only
      rw [BoundedChannel.log_push, hsince, List.append_assoc]
    · have hnone : [Sent.notice].filterMap Sent.result = [] := rfl
      rw [hpc] at hresults
      rw [List.filterMap_append, hnone, List.append_nil]
      exact hresults
    · rw [hflag] at hnotices
      simpa [Sent.isNotice] using hnotices
  · dsimp only
    rw [BoundedChannel.length_queue_push, hempty]
    exact htwo

theorem send (h : Recovered X s t) {result : EslResult EslEvent}
    (hpc : t.reader.pc = .sending result) (halive : t.delivery.channel.receiverAlive = true)
    {sent : BoundedChannel.SendResult} {d : Delivery} {number : Nat}
    (hsend : t.delivery.send number result = (sent, d)) :
    Recovered X s { t with delivery := d, reader := { t.reader with pc := .parsing } } := by
  obtain ⟨hflag, hspace⟩ := h.sending result hpc
  rw [Delivery.send_of_lt halive hspace] at hsend
  obtain ⟨-, rfl⟩ := Prod.mk.inj hsend
  refine ⟨?_, Or.inl hflag, nofun, nofun⟩
  obtain ⟨since, hsince, hresults, hdropped, hnotices, -⟩ := h.nothingLost
  refine ⟨since ++ [.item number result], ?_, ?_, hdropped, ?_, fun _ ↦ hflag⟩
  · dsimp only
    rw [BoundedChannel.log_push, hsince, List.append_assoc]
  · rw [hpc] at hresults
    simpa [Sent.result, ReaderPc.inFlight, ReaderTask.eventResults, ReaderTask.eventMessages]
      using hresults
  · simpa [Sent.isNotice] using hnotices

end Recovered

theorem recovered_step {s t u : Connection} {a : Act}
    (h : t.delivery.channel.receiverAlive = true → Recovered X s t) (hkeeps : KeepsUp X t a)
    (hstep : t.step X a = some u) (halive : u.delivery.channel.receiverAlive = true) :
    Recovered X s u := by
  have halive' := Connection.receiverAlive_of_step hstep halive
  have ht := h halive'
  cases Connection.effect_of_step X hstep with
  | parsed hpc => exact ht.parse hpc hkeeps
  | noticed hpc hnotify _ => exact ht.notify hpc halive' hnotify
  | noticeRefused hpc hnotify =>
      obtain ⟨rfl, hdead⟩ := Delivery.of_notify_closed hnotify
      rw [hdead] at halive'
      cases halive'
  | dispatched hpc hsend _ => exact ht.send hpc halive' hsend
  | itemRefused hpc hsend =>
      obtain ⟨rfl, hdead⟩ := Delivery.of_send_closed hsend
      rw [hdead] at halive'
      cases halive'
  | read hpc _ =>
      obtain ⟨hmessages, hnext⟩ := ReaderTask.read_cases (r := t.reader) t.now
        t.livenessTimeoutMs _
      refine ht.of_idle ?_ (by rw [hpc]; rfl) ?_ rfl rfl rfl rfl
      · rw [ReaderTask.eventMessages, hmessages]
        rfl
      · dsimp only
        rcases hnext with ⟨-, hnext⟩ | ⟨-, hnext⟩ <;> rw [hnext] <;> rfl
  | panicked hpc =>
      refine ht.of_idle rfl ?_ rfl rfl rfl rfl rfl
      rcases hpc with hpc | hpc <;> rw [hpc] <;> rfl
  | replied hpc | returned hpc | unwound hpc =>
      exact ht.of_idle rfl (by rw [hpc]; rfl) rfl rfl rfl rfl rfl
  | called _ | shutdown _ | livenessSet | commandTimeoutSet | ticked =>
      exact ⟨ht.nothingLost, ht.room, ht.notifying, ht.sending⟩
  | received hrecv => exact ht.of_recv hrecv
  | streamDropped => cases halive

/-! ## The capacity -/

theorem Connection.capacity_step {s t : Connection} {a : Act} (hstep : s.step X a = some t) :
    t.delivery.channel.capacity = s.delivery.channel.capacity := by
  cases Connection.effect_of_step X hstep with
  | noticed _ hnotify _ | noticeRefused _ hnotify =>
      rw [Delivery.channel_notify hnotify, BoundedChannel.capacity_trySend]
  | dispatched _ hsend _ | itemRefused _ hsend =>
      rw [Delivery.channel_send hsend, BoundedChannel.capacity_trySend]
  | received hrecv =>
      obtain ⟨-, -, -, -, -, -, -, hcapacity⟩ := BoundedChannel.of_recv hrecv
      exact hcapacity
  | parsed _ | replied _ | returned _ | unwound _ | read _ _ | panicked _ | called _ | shutdown _
  | livenessSet | commandTimeoutSet | streamDropped | ticked => rfl

theorem Connection.capacity_of_run {eventQueueSize : Nat} {parser : EslParser} {as : List Act}
    {t : Connection} (hrun : run (Connection.step X) (.init eventQueueSize parser) as = some t) :
    t.delivery.channel.capacity = max eventQueueSize 1 :=
  invariant_of_run (I := fun t : Connection ↦ t.delivery.channel.capacity = max eventQueueSize 1)
    (fun _ _ _ hs hstep ↦ (capacity_step hstep).trans hs) rfl hrun

/-- In every state that is reached, and in which the queue is empty and no dispatch is
under way, the connection recovers if and only if the stream is alive and either no
overflow episode is open or the queue has room for a notice and an item. -/
theorem recovers_iff (X : Crates) {eventQueueSize : Nat} {parser : EslParser} {as : List Act}
    {s : Connection} (hrun : run (Connection.step X) (.init eventQueueSize parser) as = some s)
    (hidle : s.reader.pc.inFlight = []) (hempty : s.delivery.channel.queue = []) :
    s.Recovers X ↔ s.delivery.channel.receiverAlive = true ∧
      (s.delivery.eventOverflow = false ∨ 2 ≤ eventQueueSize) := by
  have hcapacity := Connection.capacity_of_run hrun
  have hroom : 2 ≤ s.delivery.channel.capacity ↔ 2 ≤ eventQueueSize := by omega
  rw [← hroom]
  constructor
  · intro h
    exact (Delivery.enqueues_iff hempty).mp (h.enqueues 0 (.error .queueFull))
  · rintro ⟨halive, hcondition⟩
    refine ⟨fun number item ↦ (Delivery.enqueues_iff hempty).mpr ⟨halive, hcondition⟩, ?_⟩
    intro as t hrun' hmeets halive'
    have hstep : ∀ (u : Connection) (a : Act) (v : Connection),
        (u.delivery.channel.receiverAlive = true → Recovered X s u) → KeepsUp X u a →
          u.step X a = some v → v.delivery.channel.receiverAlive = true → Recovered X s v :=
      fun _ _ _ hu hkeeps hstep ↦ recovered_step hu hkeeps hstep
    have h := invariant_of_meets hstep (fun _ ↦ Recovered.refl hcondition hidle) hrun' hmeets
    exact (h halive').nothingLost

/-- The reader parses and sends three events, and the application receives `count`
values behind them. -/
def drainBehind (count : Nat) : List Act :=
  [.reader, .read (.data threeEvents), .reader, .reader, .reader, .reader, .reader, .reader] ++
    List.replicate count .recv

theorem recovers_drainBehind_two :
    ∃ s, run (Connection.step .percentOnly) (.init 2 EslParser.new) (drainBehind 2) = some s ∧
      s.delivery.eventOverflow = true ∧ s.delivery.dropped = [3] ∧ s.Recovers .percentOnly := by
  have hrun : (run (Connection.step .percentOnly) (.init 2 EslParser.new) (drainBehind 2)).any
      (fun s ↦ s.delivery.eventOverflow = true ∧ s.delivery.dropped = [3] ∧
        s.delivery.channel.receiverAlive = true ∧ s.reader.pc.inFlight.isEmpty = true ∧
        s.delivery.channel.queue.isEmpty = true) = true := by
    decide +kernel
  obtain ⟨s, hs, hflag, hdropped, halive, hidle, hempty⟩ := exists_run_of_any hrun
  exact ⟨s, hs, hflag, hdropped, (recovers_iff .percentOnly hs (List.isEmpty_iff.mp hidle)
    (List.isEmpty_iff.mp hempty)).mpr ⟨halive, Or.inr le_rfl⟩⟩

theorem not_recovers_drainedQueue :
    ¬ ∀ (X : Crates) (eventQueueSize : Nat) (parser : EslParser) (as : List Act) (s : Connection),
      run (Connection.step X) (.init eventQueueSize parser) as = some s →
        s.reader.pc.inFlight = [] → s.delivery.channel.queue = [] →
          s.delivery.channel.receiverAlive = true → s.Recovers X := by
  intro h
  have hrun : (run (Connection.step .percentOnly) (.init 1 EslParser.new)
      [.reader, .read (.data threeEvents), .reader, .reader, .reader, .reader, .recv]).any
      (fun s ↦ s.delivery.eventOverflow = true ∧ s.delivery.channel.capacity = 1 ∧
        s.delivery.channel.receiverAlive = true ∧ s.reader.pc.inFlight.isEmpty = true ∧
        s.delivery.channel.queue.isEmpty = true) = true := by
    decide +kernel
  obtain ⟨s, hs, hflag, hone, halive, hidle, hempty⟩ := exists_run_of_any hrun
  have hqueue := List.isEmpty_iff.mp hempty
  obtain ⟨-, -, hdropped⟩ :=
    (h _ _ _ _ s hs (List.isEmpty_iff.mp hidle) hqueue halive).enqueues 3 (.error .queueFull)
  have hlength : s.delivery.channel.queue.length + 1 = s.delivery.channel.capacity := by
    rw [hqueue, hone]
    rfl
  rw [Delivery.dropped_of_notice hflag halive hlength] at hdropped
  simp at hdropped

/-! ## The dispatch of the reader -/

/-- The result that the reader is about to dispatch. -/
def Connection.dispatching (s : Connection) : Option (EslResult EslEvent) :=
  match s.reader.pc, s.delivery.eventOverflow with
  | .notifying result, true => some result
  | .sending result, false => some result
  | _, _ => none

theorem Connection.step_of_notify {s : Connection} {result : EslResult EslEvent}
    {r : BoundedChannel.SendResult} {d : Delivery} (hpc : s.reader.pc = .notifying result)
    (hnotify : s.delivery.notify = (r, d)) (hopen : r ≠ .closed) :
    s.step X .reader = some { s with
      delivery := d, reader := { s.reader with pc := .sending result } } := by
  simp only [step, readerStep, hpc, hnotify]

theorem Connection.step_of_send {s : Connection} {result : EslResult EslEvent}
    {r : BoundedChannel.SendResult} {d : Delivery} (hpc : s.reader.pc = .sending result)
    (hsend : s.delivery.send s.eventNumber result = (r, d)) (hopen : r ≠ .closed) :
    s.step X .reader = some { s with
      delivery := d, reader := { s.reader with pc := .parsing } } := by
  simp only [step, readerStep, hpc, hsend]

/-- The dispatch is one step of the reader, and one more when it sends a notice. -/
theorem Connection.run_of_dispatching {s : Connection} {result : EslResult EslEvent}
    (h : s.dispatching = some result) (halive : s.delivery.channel.receiverAlive = true) :
    run (Connection.step X) s (List.replicate (s.delivery.eventOverflow.toNat + 1) .reader) =
      some { s with
        delivery := (s.delivery.dispatchEvent s.eventNumber result).2
        reader := { s.reader with pc := .parsing } } := by
  unfold dispatching at h
  split at h
  · rename_i hpc hflag
    rw [Option.some.inj h] at hpc
    obtain ⟨r, d, hnotify, hopen, hd⟩ := s.delivery.notify_open halive
    obtain ⟨r', d', hsend, hopen'⟩ := d.send_open s.eventNumber result hd
    have hdispatch : s.delivery.dispatchEvent s.eventNumber result = (true, d') := by
      simp only [Delivery.dispatchEvent, hflag, hnotify]
      cases r with
      | closed => exact absurd rfl hopen
      | ok | full =>
          simp only [hsend]
          cases r' with
          | closed => exact absurd rfl hopen'
          | ok | full => rfl
    rw [hflag, hdispatch]
    exact run_cons_eq_some.mpr ⟨_, step_of_notify hpc hnotify hopen,
      run_cons_eq_some.mpr ⟨_, step_of_send rfl hsend hopen', rfl⟩⟩
  · rename_i hpc hflag
    rw [Option.some.inj h] at hpc
    obtain ⟨r, d, hsend, hopen⟩ := s.delivery.send_open s.eventNumber result halive
    have hdispatch : s.delivery.dispatchEvent s.eventNumber result = (true, d) := by
      simp only [Delivery.dispatchEvent, hflag, hsend]
      cases r with
      | closed => exact absurd rfl hopen
      | ok | full => rfl
    rw [hflag, hdispatch]
    exact run_cons_eq_some.mpr ⟨_, step_of_send hpc hsend hopen, rfl⟩
  · cases h

/-- In every state that is reached, a reader about to dispatch a result over an open stream
does in its next steps what `dispatch_event` does.  The queue takes the result when it has
room for it and for the notice of an open episode, else the result is dropped. -/
theorem dispatch_exact (X : Crates) {eventQueueSize : Nat} {parser : EslParser} {as : List Act}
    {s : Connection} {result : EslResult EslEvent}
    (hrun : run (Connection.step X) (.init eventQueueSize parser) as = some s)
    (hdispatching : s.dispatching = some result)
    (halive : s.delivery.channel.receiverAlive = true) :
    let d := (s.delivery.dispatchEvent s.eventNumber result).2
    run (Connection.step X) s (List.replicate (s.delivery.eventOverflow.toNat + 1) .reader) =
        some { s with delivery := d, reader := { s.reader with pc := .parsing } } ∧
      if s.delivery.channel.queue.length + s.delivery.eventOverflow.toNat < max eventQueueSize 1
      then d.channel.queue.getLast? = some (.item s.eventNumber result) ∧
        d.dropped = s.delivery.dropped
      else d.dropped = s.delivery.dropped ++ [s.eventNumber] := by
  intro d
  have hcases := s.delivery.enqueues_or_dropped s.eventNumber result halive
  rw [Connection.capacity_of_run hrun] at hcases
  refine ⟨Connection.run_of_dispatching hdispatching halive, ?_⟩
  split
  · rename_i hspace
    rw [if_pos hspace] at hcases
    exact hcases.2
  · rename_i hfull
    rw [if_neg hfull] at hcases
    exact hcases

theorem dispatch_exact_fourthEvent :
    ∃ s t result, run (Connection.step .percentOnly) (.init 2 EslParser.new)
        (drainBehind 2 ++ [.reader, .read (.data threeEvents), .reader]) = some s ∧
      s.delivery.eventOverflow = true ∧ s.delivery.channel.queue.length = 0 ∧
        run (Connection.step .percentOnly) s [.reader, .reader] = some t ∧
          t.delivery.channel.queue.getLast? = some (.item 4 result) ∧
            t.delivery.dropped = [3] := by
  have hrun : (run (Connection.step .percentOnly) (.init 2 EslParser.new)
      (drainBehind 2 ++ [.reader, .read (.data threeEvents), .reader])).any
      (fun s ↦ s.delivery.eventOverflow = true ∧ s.delivery.channel.queue.length = 0 ∧
        s.delivery.channel.receiverAlive = true ∧ s.delivery.dropped = [3] ∧ s.eventNumber = 4 ∧
        s.dispatching.isSome = true) = true := by
    decide +kernel
  obtain ⟨s, hs, hflag, hempty, halive, hdropped, hnumber, hsome⟩ := exists_run_of_any hrun
  obtain ⟨result, hresult⟩ := Option.isSome_iff_exists.mp hsome
  obtain ⟨hsteps, hroom⟩ := dispatch_exact .percentOnly hs hresult halive
  rw [hempty, hflag, if_pos (by decide), hnumber, hdropped] at hroom
  rw [hflag, hnumber] at hsteps
  exact ⟨s, _, result, hs, hflag, hempty, hsteps, hroom⟩

end FreeswitchEsl
