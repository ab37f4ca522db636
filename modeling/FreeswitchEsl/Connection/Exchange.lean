import FreeswitchEsl.Connection.Progress
import FreeswitchEsl.Connection.Requests

/-!
# Commands and the answers to them

Both directions of a connection at once.  The server knows the commands from the bytes
on the wire alone, and the client knows the replies from the bytes that come back; as
long as no call gives up, a response is the server's answer to the command of its call.
-/

namespace FreeswitchEsl

open Text Transition Incremental

variable {X : Crates}

/-! ## Calls that wait for their reply -/

/-- The call is dropped, its write fails, or its timer fires. -/
def CallOp.givesUp : CallOp → Bool
  | .cancel | .fail _ | .expire => true
  | _ => false

namespace Clients

variable {c d : Clients} {status : ConnectionStatus} {id : Nat} {op : CallOp}

/-- The call waits, and its sender has not been used. -/
def Waits (c : Clients) (id : Nat) : Prop :=
  (c.calls id).state.waiting = true ∧ (c.calls id).reply = .pending

/-- Every call waits that is owed its reply or has not written all of its text. -/
structure Patient (c : Clients) (owed : List Nat) : Prop where
  owed : ∀ id ∈ owed, c.Waits id
  underway : ∀ id rest, (c.calls id).state = .writing rest → rest ≠ [] → c.Waits id

theorem Waits.slot (h : c.Waits id) (hexclusive : c.Exclusive) : c.pendingReply = some id :=
  hexclusive.slot id h.1 h.2

/-- Only its reply ends the waiting of a call that does not give up. -/
theorem waits_of_effect {k : Nat} (h : c.Waits k) (hexclusive : c.Exclusive)
    (hop : op.givesUp = false) (hstep : Effect status c id op d) : d.Waits k := by
  obtain ⟨hwaiting, hreply⟩ := h
  by_cases heq : k = id
  · subst heq
    cases hstep with
    | wrote _ _ _ _ | awaits _ => exact ⟨by simp [CallState.waiting], by simpa using hreply⟩
    | resolved _ hsent =>
        rw [hreply] at hsent
        cases hsent
    | abandoned _ hclosed =>
        rw [hreply] at hclosed
        cases hclosed
    | notConnected hstate _ | invalid hstate _ | started hstate _ _ | locked hstate _
    | stored hstate | cleared hstate =>
        rw [hstate] at hwaiting
        cases hwaiting
    | failed _ _ | expired _ _ | cancelledWaiting _ | cancelledHolding _ => cases hop
  · refine ⟨?_, ?_⟩
    · rw [state_of_effect_of_ne hstep heq]
      exact hwaiting
    · rw [reply_of_effect_of_ne hexclusive hstep heq hwaiting]
      exact hreply

theorem written_of_effect (hstep : Effect status c id op d) :
    d.written = c.written ∨ d.written = c.written ++ [id] ∧
      ∃ rest, (c.calls id).state = .writing rest ∧ rest ≠ [] := by
  cases hstep with
  | @wrote rest count hstate hpos hle _ =>
      by_cases hcount : count = rest.length
      · refine Or.inr ⟨if_pos hcount, rest, hstate, ?_⟩
        rintro rfl
        rw [List.length_nil] at hle
        omega
      · exact Or.inl (if_neg hcount)
  | stored _ | cleared _ => exact Or.inl written_dropSender
  | notConnected _ _ | invalid _ _ | started _ _ _ | locked _ _ | awaits _ | failed _ _
  | resolved _ _ | abandoned _ _ | expired _ _ | cancelledWaiting _ | cancelledHolding _ =>
      exact Or.inl rfl

namespace Patient

variable {owed : List Nat}

theorem mono {owed' : List Nat} (h : c.Patient owed) (hsub : ∀ k ∈ owed', k ∈ owed) :
    c.Patient owed' :=
  ⟨fun k hk ↦ h.owed k (hsub k hk), h.underway⟩

theorem step (h : c.Patient owed) (hexclusive : c.Exclusive) (hop : op.givesUp = false)
    (hstep : Effect status c id op d) :
    ∃ new, d.written = c.written ++ new ∧ d.Patient (owed ++ new) := by
  have hunderway : ∀ k rest, (d.calls k).state = .writing rest → rest ≠ [] → d.Waits k := by
    intro k rest hstate hne
    by_cases heq : k = id
    · subst heq
      have hstep' := hstep
      cases hstep with
      | stored _ =>
          refine ⟨by simp [CallState.waiting], ?_⟩
          dsimp only
          rw [reply_setState, reply_setReply_self]
      | @wrote rest' count hstate' _ _ _ =>
          refine waits_of_effect (h.underway k rest' hstate' ?_) hexclusive hop hstep'
          rintro rfl
          simp only [calls_setState_self, List.drop_nil, CallState.writing.injEq] at hstate
          exact hne hstate.symm
      | notConnected _ _ | invalid _ _ | started _ _ _ | locked _ _ | awaits _ | failed _ _
      | resolved _ _ | abandoned _ _ | expired _ _ | cleared _ | cancelledWaiting _
      | cancelledHolding _ =>
          simp [finish] at hstate
    · rw [state_of_effect_of_ne hstep heq] at hstate
      exact waits_of_effect (h.underway k rest hstate hne) hexclusive hop hstep
  rcases written_of_effect hstep with hsame | ⟨hnew, rest, hstate, hne⟩
  · refine ⟨[], by rw [hsame, List.append_nil], ?_, hunderway⟩
    rw [List.append_nil]
    exact fun k hk ↦ waits_of_effect (h.owed k hk) hexclusive hop hstep
  · refine ⟨[id], hnew, ?_, hunderway⟩
    intro k hk
    rcases List.mem_append.mp hk with hk | hk
    · exact waits_of_effect (h.owed k hk) hexclusive hop hstep
    · obtain rfl := List.mem_singleton.mp hk
      exact waits_of_effect (h.underway k rest hstate hne) hexclusive hop hstep

/-- The oldest command that is owed its reply gets it, and it is the only one. -/
theorem deliver {first : Nat} {later : List Nat} (h : c.Patient (first :: later))
    (hexclusive : c.Exclusive) (honce : c.WrittenOnce) (hfirst : first ∈ c.written)
    (hnodup : (first :: later).Nodup) (m : EslMessage) : (c.deliver m).Patient later := by
  have hslot := (h.owed first List.mem_cons_self).slot hexclusive
  have hfirst' : ∀ k, c.Waits k → k = first := by
    intro k hk
    have hslot' := hk.slot hexclusive
    rw [hslot] at hslot'
    exact (Option.some.inj hslot').symm
  refine ⟨?_, ?_⟩
  · intro k hk
    obtain rfl := hfirst' k (h.owed k (List.mem_cons_of_mem first hk))
    exact absurd hk (List.nodup_cons.mp hnodup).1
  · intro k rest hstate hne
    rw [state_deliver] at hstate
    obtain rfl := hfirst' k (h.underway k rest hstate hne)
    have hunwritten := honce.written k hfirst
    rw [hstate] at hunwritten
    exact absurd hunwritten (by simp [CallState.unwritten, hne])

end Patient

end Clients

/-! ## Replies in turn -/

/-- No call gives up in this step. -/
def NetAct.patient : NetAct → Bool
  | .conn (.call _ op) => !op.givesUp
  | _ => true

/-- While no call gives up, the reader has at most one reply to hand over at a time. -/
structure InTime (X : Crates) (s : Net) : Prop where
  net : NetInvariant X s
  exclusive : s.conn.clients.Exclusive
  patient : s.conn.reader.pc.live = true → s.conn.clients.Patient s.owed

theorem ReaderPc.live_of_isReplying {pc : ReaderPc} (h : pc.isReplying = true) :
    pc.live = true := by
  cases pc with
  | replying message => rfl
  | _ => cases h

theorem ReaderPc.length_inHand (pc : ReaderPc) : pc.inHand.length = pc.isReplying.toNat := by
  cases pc <;> rfl

theorem Net.owed_congr {s t : Net} (hwritten : t.conn.clients.written = s.conn.clients.written)
    (hreplies : t.conn.reader.replies = s.conn.reader.replies)
    (hpc : t.conn.reader.pc.isReplying = s.conn.reader.pc.isReplying) : t.owed = s.owed := by
  rw [Net.owed, Net.owed, hwritten, hreplies, hpc]

namespace InTime

variable {s t : Net} {a : NetAct}

theorem slotInTurn (h : InTime X s) (hlive : s.conn.reader.pc.live = true) : s.SlotInTurn := by
  intro id hslot _ other hother
  have hslot' := ((h.patient hlive).owed other hother).slot h.exclusive
  rw [hslot] at hslot'
  exact (Option.some.inj hslot').symm

theorem inTurn (h : InTime X s) (a : NetAct) : Net.InTurn s a := by
  unfold Net.InTurn
  split
  · exact fun hreplying ↦ h.slotInTurn (ReaderPc.live_of_isReplying hreplying)
  · exact True.intro

/-- A step of the connection that leaves the calls alone and hands nothing over. -/
theorem patient_of_reader (h : InTime X s) {conn : Connection} {inflight : Bytes}
    (hclients : conn.clients = s.conn.clients)
    (hreplies : conn.reader.replies = s.conn.reader.replies)
    (hpc : conn.reader.pc.isReplying = s.conn.reader.pc.isReplying)
    (hlive : conn.reader.pc.live = true → s.conn.reader.pc.live = true)
    (hlive' : conn.reader.pc.live = true) :
    conn.clients.Patient (Net.owed ⟨conn, inflight, s.replies⟩) := by
  have howed : Net.owed ⟨conn, inflight, s.replies⟩ = s.owed :=
    Net.owed_congr (congrArg Clients.written hclients) hreplies hpc
  rw [howed, hclients]
  exact h.patient (hlive hlive')

theorem patient_step (h : InTime X s) {act : Act} (hpatient : (NetAct.conn act).patient = true)
    {conn : Connection} (hstep : s.conn.step X act = some conn) {inflight : Bytes}
    (hlive : conn.reader.pc.live = true) :
    conn.clients.Patient (Net.owed ⟨conn, inflight, s.replies⟩) := by
  cases Connection.effect_of_step X hstep with
  | parsed hpc =>
      -- a reply that has been parsed is still in the hand of the reader
      have hpatient := h.patient (by rw [hpc]; rfl)
      rw [Net.owed, hpc] at hpatient
      rw [Net.owed]
      dsimp only
      rw [ReaderTask.replies_parse hpc, List.length_append, ReaderPc.length_inHand,
        Nat.add_sub_cancel]
      exact hpatient
  | @read outcome hpc _ =>
      obtain ⟨hmessages, hnext⟩ := s.conn.reader.read_cases s.conn.now s.conn.livenessTimeoutMs
        outcome
      refine h.patient_of_reader rfl ?_ ?_ (fun _ ↦ ?_) hlive
      · exact congrArg (List.filter EslMessage.isReply) hmessages
      · dsimp only
        rcases hnext with ⟨-, hnext⟩ | ⟨-, hnext⟩ <;> rw [hnext, hpc] <;> rfl
      · rw [hpc]
        rfl
  | noticed hpc _ _ | dispatched hpc _ _ =>
      refine h.patient_of_reader rfl rfl ?_ (fun _ ↦ ?_) hlive
      · rw [hpc]
        rfl
      · rw [hpc]
        rfl
  | noticeRefused _ _ | itemRefused _ _ | returned _ | unwound _ | panicked _ => cases hlive
  | @replied message hpc =>
      obtain ⟨past, hpast⟩ := h.net.incoming.inHand message hpc
      have hle := h.net.incoming.taken.length_le
      have hanswered := h.net.matched.answered
      have hpatient := h.patient (by rw [hpc]; rfl)
      rw [hpast, List.length_append, List.length_singleton] at hle
      have hlt : past.length < s.conn.clients.written.length := by omega
      have howed : s.owed = s.conn.clients.written[past.length] ::
          s.conn.clients.written.drop (past.length + 1) := by
        rw [← List.drop_eq_getElem_cons hlt, Net.owed, hpast, hpc]
        simp [ReaderPc.isReplying]
      change (s.conn.clients.deliver message).Patient
        ((s.conn.clients.deliver message).written.drop (s.conn.reader.replies.length - 0))
      rw [Clients.written_deliver, hpast, List.length_append, List.length_singleton]
      rw [howed] at hpatient
      refine hpatient.deliver h.exclusive h.net.writtenOnce (List.getElem_mem hlt) ?_ message
      rw [← List.drop_eq_getElem_cons hlt]
      exact h.net.writtenOnce.nodup.sublist (List.drop_sublist _ _)
  | called heffect =>
      obtain ⟨new, hwritten, hnew⟩ := (h.patient hlive).step h.exclusive
        (by simpa [NetAct.patient] using hpatient) heffect
      refine hnew.mono fun k hk ↦ ?_
      simp only [Net.owed, hwritten, List.drop_append] at hk ⊢
      rcases List.mem_append.mp hk with hk | hk
      · exact List.mem_append_left new hk
      · exact List.mem_append_right _ (List.mem_of_mem_drop hk)
  | shutdown _ | livenessSet | commandTimeoutSet | received _ | streamDropped | ticked =>
      have hsame := h.patient hlive
      exact ⟨hsame.owed, hsame.underway⟩

theorem init {eventQueueSize : Nat} {parser : EslParser} {inflight : Bytes} {ms : List EslMessage}
    (hstart : (framing X).drain parser.state (parser.buffer.data ++ inflight) =
      (ms, .waiting .waitingForHeaders []))
    (hquiet : ∀ m ∈ ms, m.isReply = false) :
    InTime X (.init eventQueueSize parser inflight) where
  net := by
    have hnone : ms.filter EslMessage.isReply = [] := by
      apply List.filter_eq_nil_iff.mpr
      intro m hm
      simp [hquiet m hm]
    refine ⟨⟨List.prefix_refl _, fun _ ↦ ⟨ms, hstart, ?_⟩, fun _ h ↦ by cases h⟩,
      Clients.matched_init, List.nodup_nil, fun _ h ↦ by cases h⟩
    rw [hnone]
    rfl
  exclusive := Clients.exclusive_init
  patient := fun _ ↦ ⟨fun _ h ↦ (by cases h), fun _ _ h ↦ by cases h⟩

theorem step (h : InTime X s) (hpatient : a.patient = true) (hstep : s.step X a = some t) :
    InTime X t := by
  have hnet := netInvariant_step h.net (h.inTurn a) hstep
  cases Net.effect_of_step X hstep with
  | told _ _ | answered _ _ _ => exact ⟨hnet, h.exclusive, h.patient⟩
  | arrived hconn _ | moved hconn _ =>
      exact ⟨hnet, Connection.exclusive_step X h.exclusive hconn, h.patient_step hpatient hconn⟩

end InTime

/-! ## A server that reads the wire -/

/-- The reply that stands at the front of the bytes. -/
def replyIn (X : Crates) (bytes : Bytes) : Option EslMessage :=
  match frame X .waitingForHeaders bytes with
  | .emit message _ _ => if message.isReply then some message else none
  | _ => none

/-- The server gives a reply only to a command that it has read, in the order in which
they came, and one that may answer this command. -/
def Net.Answers (X : Crates) (answer : EslCommand → EslMessage → Prop) (s : Net) :
    NetAct → Prop
  | .serve bytes => ∀ message ∈ replyIn X bytes,
      ∃ command ∈ (readCommands s.conn.clients.wire)[s.replies.length]?.join,
        answer command message
  | .conn _ => True

instance (answer : EslCommand → EslMessage → Prop) [∀ command message,
    Decidable (answer command message)] (s : Net) : (a : NetAct) → Decidable (s.Answers X answer a)
  | .serve bytes => inferInstanceAs (Decidable (∀ message ∈ replyIn X bytes,
      ∃ command ∈ (readCommands s.conn.clients.wire)[s.replies.length]?.join,
        answer command message))
  | .conn _ => .isTrue True.intro

/-- Every reply answers the command in its place. -/
def Net.Told (answer : EslCommand → EslMessage → Prop) (s : Net) : Prop :=
  ∀ (k : Nat) (message : EslMessage), s.replies[k]? = some message →
    ∃ command, (readCommands s.conn.clients.wire)[k]? = some (some command) ∧
      answer command message

theorem Clients.wire_of_effect {c d : Clients} {status : ConnectionStatus} {id : Nat}
    {op : CallOp} (hstep : Effect status c id op d) : ∃ bytes, d.wire = c.wire ++ bytes := by
  cases hstep with
  | wrote _ _ _ _ => exact ⟨_, rfl⟩
  | stored _ | cleared _ => exact ⟨[], wire_dropSender.trans (List.append_nil _).symm⟩
  | notConnected _ _ | invalid _ _ | started _ _ _ | locked _ _ | awaits _ | failed _ _
  | resolved _ _ | abandoned _ _ | expired _ _ | cancelledWaiting _ | cancelledHolding _ =>
      exact ⟨[], (List.append_nil _).symm⟩

theorem Connection.wire_of_step {s t : Connection} {a : Act} (hstep : s.step X a = some t) :
    ∃ bytes, t.clients.wire = s.clients.wire ++ bytes := by
  have hsame : ∃ bytes, s.clients.wire = s.clients.wire ++ bytes :=
    ⟨[], (List.append_nil _).symm⟩
  refine clients_of_step (fun c ↦ ∃ bytes, c.wire = s.clients.wire ++ bytes) hstep hsame ?_ ?_
    hsame fun _ ↦ hsame
  · intro m _ _
    rw [Clients.wire_deliver]
    exact hsame
  · intro id op clients _ heffect
    exact Clients.wire_of_effect heffect

section Server

variable {answer : EslCommand → EslMessage → Prop} {s t : Net} {a : NetAct}

theorem Net.Told.of_wire (h : s.Told answer) (hreplies : t.replies = s.replies)
    (hwire : ∃ bytes, t.conn.clients.wire = s.conn.clients.wire ++ bytes) : t.Told answer := by
  intro k message hk
  rw [hreplies] at hk
  obtain ⟨command, hcommand, hanswer⟩ := h k message hk
  obtain ⟨bytes, hwire⟩ := hwire
  obtain ⟨hlt, heq⟩ := List.getElem?_eq_some_iff.mp hcommand
  refine ⟨command, ?_, hanswer⟩
  rw [hwire, ← heq]
  exact List.prefix_iff_getElem?.mp (readCommands_append _ bytes) k hlt

theorem Net.told_step (h : s.Told answer) (hserver : s.Answers X answer a)
    (hstep : s.step X a = some t) : t.Told answer := by
  cases Net.effect_of_step X hstep with
  | told _ _ => exact h
  | @answered bytes message hframe hreply _ =>
      intro k m hk
      by_cases hlt : k < s.replies.length
      · rw [List.getElem?_append_left hlt] at hk
        exact h k m hk
      · rw [List.getElem?_append_right (not_lt.mp hlt), List.getElem?_singleton] at hk
        split at hk
        · rename_i hzero
          obtain rfl := Option.some.inj hk
          obtain rfl : k = s.replies.length := by omega
          have hfront : replyIn X bytes = some message := by
            rw [replyIn, hframe]
            exact if_pos hreply
          obtain ⟨command, hcommand, hanswer⟩ := hserver message hfront
          exact ⟨command, Option.join_eq_some_iff.mp hcommand, hanswer⟩
        · cases hk
  | arrived hconn _ | moved hconn _ => exact h.of_wire rfl (Connection.wire_of_step hconn)

end Server

/-! ## The whole exchange -/

/-- What the connection does in a step of the system. -/
def NetAct.act : NetAct → Option Act
  | .conn a => some a
  | .serve _ => none

theorem Net.run_act {s t : Net} {as : List NetAct} (hrun : run (Net.step X) s as = some t) :
    run (Connection.step X) s.conn (as.filterMap NetAct.act) = some t.conn := by
  induction as generalizing s with
  | nil =>
      obtain rfl : s = t := Option.some.inj hrun
      rfl
  | cons a as ih =>
      obtain ⟨v, hv, hrest⟩ := run_cons_eq_some.mp hrun
      have hnext := ih hrest
      cases Net.effect_of_step X hv with
      | told _ _ | answered _ _ _ => exact hnext
      | arrived hconn _ | moved hconn _ => exact run_cons_eq_some.mpr ⟨_, hconn, hnext⟩

theorem NetAct.not_disturbs {as : List NetAct} (h : ∀ a ∈ as, a.patient = true) :
    ∀ a ∈ as.filterMap NetAct.act, a.disturbs = false := by
  intro a ha
  obtain ⟨b, hb, hact⟩ := List.mem_filterMap.mp ha
  cases b with
  | serve bytes => cases hact
  | conn a' =>
      obtain rfl := Option.some.inj hact
      have hpatient := h _ hb
      unfold Act.disturbs
      split
      · cases hpatient
      · cases hpatient
      · rfl

/-- As long as no call gives up, whatever else happens on the connection: a call that
returns a response has got an answer of the server to the command it was begun with,
although the server knows the commands, and the client the replies, from bytes only. -/
theorem calls_answered {answer : EslCommand → EslMessage → Prop} {eventQueueSize : Nat}
    {parser : EslParser} {inflight : Bytes} {ms : List EslMessage} {as : List NetAct} {t : Net}
    (hstart : (framing X).drain parser.state (parser.buffer.data ++ inflight) =
      (ms, .waiting .waitingForHeaders []))
    (hquiet : ∀ m ∈ ms, m.isReply = false)
    (hrun : run (Net.step X) (.init eventQueueSize parser inflight) as = some t)
    (hpatient : ∀ a ∈ as, a.patient = true)
    (hserver : Meets (Net.step X) (Net.Answers X answer) (.init eventQueueSize parser inflight) as)
    (hlegible : ∀ id command, Begins (as.filterMap NetAct.act) id command → command.Legible)
    {id : Nat} {response : EslResponse}
    (hreturned : (t.conn.clients.calls id).state = .returned (.ok response)) :
    ∃ command message, Begins (as.filterMap NetAct.act) id command ∧
      answer command.received message ∧ response = message.intoResponse := by
  have hinv : InTime X t := by
    refine invariant_of_meets (C := fun _ a ↦ a.patient = true)
      (fun _ _ _ h hC hstep ↦ h.step hC hstep) (InTime.init hstart hquiet) hrun ?_
    exact meets_of_forall fun a ha _ ↦ hpatient a ha
  have htold : t.Told answer := by
    refine invariant_of_meets (fun _ _ _ h hC hstep ↦ Net.told_step h hC hstep) ?_ hrun hserver
    intro k message hk
    cases hk
  obtain ⟨message, ⟨k, hid, hmessage⟩, rfl⟩ := hinv.net.matched.returned id response hreturned
  -- the server has read what the call was begun with
  have hrequesting := Requesting.run (Net.run_act hrun) (NetAct.not_disturbs hpatient)
  obtain ⟨commands, hbegins, hread⟩ := hrequesting.readCommands hlegible
  obtain ⟨received, hreceived, hanswer⟩ := htold k message hmessage
  rw [hread, List.getElem?_map] at hreceived
  obtain ⟨command, hcommand, heq⟩ := Option.map_eq_some_iff.mp hreceived
  obtain rfl := Option.some.inj heq
  obtain ⟨hlt, rfl⟩ := List.getElem?_eq_some_iff.mp hid
  obtain ⟨hlt', rfl⟩ := List.getElem?_eq_some_iff.mp hcommand
  exact ⟨commands[k], message, hbegins.get hlt hlt', hanswer, rfl⟩

/-- Two calls at once, each of which gets the answer to its own command. -/
def statusAndUptime : List NetAct :=
  [.conn (.call 0 (.start .byName (.api "status".toList))), .conn (.call 0 .lock),
    .conn (.call 0 .store), .conn (.call 1 (.start .byName (.api "uptime".toList))),
    .conn (.call 0 (.write 12)), .serve (apiReply "up"), .conn (.call 0 .await)] ++
    takeReply (apiReply "up") ++
  [.conn (.call 0 .resolve), .conn (.call 1 .lock), .conn (.call 1 .store),
    .conn (.call 1 (.write 5)), .conn (.call 1 (.write 7)), .conn (.call 1 .await),
    .serve (apiReply "9s")] ++ takeReply (apiReply "9s") ++ [.conn (.call 1 .resolve)]

/-- A server that knows two questions. -/
def answersTwo (command : EslCommand) (message : EslMessage) : Bool :=
  match command with
  | .api text => (text = "status".toList ∧ message.body = some "up".toList) ∨
      text = "uptime".toList ∧ message.body = some "9s".toList
  | _ => false

theorem command_of_begins_statusAndUptime {id : Nat} {command : EslCommand}
    (h : Begins (statusAndUptime.filterMap NetAct.act) id command) :
    id = 0 ∧ command = .api "status".toList ∨ id = 1 ∧ command = .api "uptime".toList := by
  obtain ⟨order, hmem⟩ := h
  simp only [statusAndUptime, takeReply, List.cons_append, List.nil_append, List.filterMap_cons,
    NetAct.act, List.filterMap_nil, List.mem_cons, Act.call.injEq, CallOp.start.injEq,
    reduceCtorEq, List.not_mem_nil, or_false, false_or, and_false] at hmem
  rcases hmem with ⟨hid, -, hcommand⟩ | ⟨hid, -, hcommand⟩
  · exact Or.inl ⟨hid, hcommand⟩
  · exact Or.inr ⟨hid, hcommand⟩

theorem calls_answered_statusAndUptime :
    ∃ t response message, run (Net.step .percentOnly) (.init 1 EslParser.new []) statusAndUptime =
        some t ∧ (t.conn.clients.calls 1).state = .returned (.ok response) ∧
      answersTwo (.api "uptime".toList) message = true ∧ response = message.intoResponse := by
  have hrun : (run (Net.step .percentOnly) (.init 1 EslParser.new []) statusAndUptime).any
      (fun t ↦ (t.conn.clients.calls 1).state.responseBody = some "9s".toList) = true := by
    decide +kernel
  obtain ⟨t, ht, hbody⟩ := exists_run_of_any hrun
  have hstart : (framing .percentOnly).drain EslParser.new.state
      (EslParser.new.buffer.data ++ []) = ([], .waiting .waitingForHeaders []) :=
    (framing .percentOnly).drain_of_more rfl
  have hserver : Meets (Net.step .percentOnly) (Net.Answers .percentOnly fun c m ↦ answersTwo c m)
      (.init 1 EslParser.new []) statusAndUptime := by
    decide +kernel
  have hlegible : ∀ id command, Begins (statusAndUptime.filterMap NetAct.act) id command →
      command.Legible := by
    intro id command h
    rcases command_of_begins_statusAndUptime h with ⟨-, rfl⟩ | ⟨-, rfl⟩ <;> exact True.intro
  cases hstate : (t.conn.clients.calls 1).state with
  | returned result =>
      cases result with
      | ok response =>
          obtain ⟨command, message, hbegin, hanswer, heq⟩ := calls_answered hstart (by simp) ht
            (by decide) hserver hlegible hstate
          rcases command_of_begins_statusAndUptime hbegin with ⟨hid, -⟩ | ⟨-, rfl⟩
          · cases hid
          · exact ⟨t, response, message, ht, hstate, hanswer, heq⟩
      | error e =>
          rw [hstate] at hbody
          cases hbody
  | _ =>
      rw [hstate] at hbody
      cases hbody

end FreeswitchEsl
