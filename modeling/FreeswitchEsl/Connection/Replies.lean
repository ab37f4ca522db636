import FreeswitchEsl.Connection.Exclusion
import FreeswitchEsl.Percent
import FreeswitchEsl.Protocol.Framing

/-!
# Replies and the commands they answer

A server stands at the other end of the connection.  It answers every command
that it has received, once and in the order in which they came, at any time.
-/

namespace FreeswitchEsl

open Text Transition

variable (X : Crates)

/-! ## The server -/

def EslMessage.isReply (m : EslMessage) : Bool :=
  decide (m.messageType = .commandReply ∨ m.messageType = .apiResponse)

def ReaderTask.replies (r : ReaderTask) : List EslMessage := r.messages.filter EslMessage.isReply

def ReaderPc.isReplying : ReaderPc → Bool
  | .replying _ => true
  | _ => false

/-- The call gives up in the middle of its text, and no whole command arrives. -/
def Clients.tears (c : Clients) (id : Nat) : CallOp → Bool
  | .cancel | .fail _ =>
      match (c.calls id).state with
      | .writing rest => decide (rest ≠ [] ∧ rest ≠ (c.calls id).text)
      | _ => false
  | _ => false

/-- One of the replies answers the command of the call. -/
def Clients.Answered (c : Clients) (replies : List EslMessage) (id : Nat)
    (message : EslMessage) : Prop :=
  ∃ k : Nat, c.written[k]? = some id ∧ replies[k]? = some message

/-- A connection, the bytes that the reader has not read yet, and the replies of
the server: the first one answers the first command that was written. -/
structure Net where
  conn : Connection
  inflight : Bytes
  replies : List EslMessage

inductive NetAct where
  | conn (a : Act)
  | serve (bytes : Bytes)

namespace Net

def init (eventQueueSize : Nat) (parser : EslParser) (inflight : Bytes) : Net :=
  ⟨.init eventQueueSize parser, inflight, []⟩

/-- The server sends one message, which is a reply only if a command waits for
one; the reader gets the bytes in any pieces. -/
def step (s : Net) : NetAct → Option Net
  | .serve bytes =>
      match frame X .waitingForHeaders bytes with
      | .emit message .waitingForHeaders [] =>
          if message.isReply = false then some { s with inflight := s.inflight ++ bytes }
          else if s.replies.length < s.conn.clients.written.length then
            some { s with inflight := s.inflight ++ bytes, replies := s.replies ++ [message] }
          else none
      | _ => none
  | .conn (.read (.data chunk)) =>
      if s.inflight.take chunk.length = chunk then
        (s.conn.step X (.read (.data chunk))).map fun conn ↦
          { s with conn := conn, inflight := s.inflight.drop chunk.length }
      else none
  | .conn (.call id op) =>
      if s.conn.clients.tears id op then none
      else (s.conn.step X (.call id op)).map fun conn ↦ { s with conn := conn }
  | .conn a => (s.conn.step X a).map fun conn ↦ { s with conn := conn }

/-- Every call that returned a response has got the reply to its own command. -/
def Correlated (s : Net) : Prop :=
  s.conn.clients.written.Nodup ∧
    ∀ id response, (s.conn.clients.calls id).state = .returned (.ok response) →
      ∃ message, s.conn.clients.Answered s.replies id message ∧ response = message.intoResponse

/-- The written commands whose reply the reader has not handled yet. -/
def owed (s : Net) : List Nat :=
  s.conn.clients.written.drop
    (s.conn.reader.replies.length - s.conn.reader.pc.isReplying.toNat)

/-- No command but the one that waits in the slot is owed its reply. -/
def SlotInTurn (s : Net) : Prop :=
  ∀ id, s.conn.clients.pendingReply = some id →
    (s.conn.clients.calls id).state.waiting = true → ∀ other ∈ s.owed, other = id

instance (s : Net) : Decidable s.SlotInTurn :=
  match h : s.conn.clients.pendingReply with
  | none => .isTrue (by simp [SlotInTurn, h])
  | some id => decidable_of_iff
      ((s.conn.clients.calls id).state.waiting = true → ∀ other ∈ s.owed, other = id)
      (by simp [SlotInTurn, h])

/-- The reader hands over a reply only in turn. -/
def InTurn (s : Net) (a : NetAct) : Prop :=
  match a with
  | .conn .reader => s.conn.reader.pc.isReplying = true → s.SlotInTurn
  | _ => True

instance (s : Net) : (a : NetAct) → Decidable (InTurn s a)
  | .conn .reader =>
      inferInstanceAs (Decidable (s.conn.reader.pc.isReplying = true → s.SlotInTurn))
  | .serve _ | .conn (.read _) | .conn .panic | .conn (.call _ _) | .conn .disconnect
  | .conn (.setLivenessTimeout _) | .conn (.setCommandTimeout _) | .conn .recv
  | .conn .dropStream | .conn (.tick _) => .isTrue trivial

end Net

/-! ## The rules of the system -/

namespace Net

/-- The rules that `step` follows. -/
inductive Effect (s : Net) : NetAct → Net → Prop
  | told {bytes message} : frame X .waitingForHeaders bytes = .emit message .waitingForHeaders [] →
      message.isReply = false →
      Effect s (.serve bytes) { s with inflight := s.inflight ++ bytes }
  | answered {bytes message} :
      frame X .waitingForHeaders bytes = .emit message .waitingForHeaders [] →
      message.isReply = true → s.replies.length < s.conn.clients.written.length →
      Effect s (.serve bytes)
        { s with inflight := s.inflight ++ bytes, replies := s.replies ++ [message] }
  | arrived {chunk conn} : s.conn.step X (.read (.data chunk)) = some conn →
      s.inflight = chunk ++ s.inflight.drop chunk.length →
      Effect s (.conn (.read (.data chunk)))
        { s with conn := conn, inflight := s.inflight.drop chunk.length }
  | moved {a conn} : s.conn.step X a = some conn → (∀ chunk, a ≠ .read (.data chunk)) →
      Effect s (.conn a) { s with conn := conn }

theorem effect_of_step {s t : Net} {a : NetAct} (h : s.step X a = some t) : Effect X s a t := by
  unfold step at h
  split at h
  · split at h
    · rename_i message hframe
      split at h
      · rename_i hreply
        obtain rfl := Option.some.inj h
        exact .told hframe hreply
      · rename_i hreply
        split at h
        · rename_i hlength
          obtain rfl := Option.some.inj h
          exact .answered hframe (by simpa using hreply) hlength
        · cases h
    · cases h
  · rename_i chunk
    split at h
    · rename_i htake
      obtain ⟨conn, hconn, rfl⟩ := Option.map_eq_some_iff.mp h
      have hsplit := List.take_append_drop chunk.length s.inflight
      rw [htake] at hsplit
      exact .arrived hconn hsplit.symm
    · cases h
  · split at h
    · cases h
    · obtain ⟨conn, hconn, rfl⟩ := Option.map_eq_some_iff.mp h
      exact .moved hconn nofun
  · rename_i a hread _
    obtain ⟨conn, hconn, rfl⟩ := Option.map_eq_some_iff.mp h
    exact .moved hconn hread

end Net

/-! ## Replies on their way -/

def ReaderPc.live : ReaderPc → Bool
  | .returning | .panicked | .done => false
  | _ => true

/-- The replies reach the reader in order: those it has parsed are the first ones,
and the others are in its buffer and on their way. -/
structure Incoming (r : ReaderTask) (inflight : Bytes) (replies : List EslMessage) : Prop where
  taken : r.replies <+: replies
  coming : r.pc.live = true → ∃ ms,
    (framing X).drain r.parser.state (r.parser.buffer.data ++ inflight) =
        (ms, .waiting .waitingForHeaders []) ∧
      replies = r.replies ++ ms.filter EslMessage.isReply
  inHand : ∀ m, r.pc = .replying m → ∃ past, r.replies = past ++ [m]

variable {X}

section Handle

variable {r : ReaderTask} {m m' : EslMessage} {overflow : Bool}

theorem ReaderTask.parser_handle : (handle X overflow m r).parser = r.parser := by
  unfold handle
  split
  · split <;> rfl
  · rfl
  · rfl
  · split <;> rfl
  · rfl
  · rfl

theorem ReaderTask.messages_handle : (handle X overflow m r).messages = r.messages := by
  unfold handle
  split
  · split <;> rfl
  · rfl
  · rfl
  · split <;> rfl
  · rfl
  · rfl

theorem ReaderTask.of_handle_replying (hpc : r.pc = .parsing)
    (h : (handle X overflow m r).pc = .replying m') : m' = m ∧ m.isReply = true := by
  unfold handle at h
  split at h
  · split at h <;> cases h
  · rename_i htype
    cases h
    exact ⟨rfl, decide_eq_true (Or.inl htype)⟩
  · rename_i htype
    cases h
    exact ⟨rfl, decide_eq_true (Or.inr htype)⟩
  · split at h
    · rw [hpc] at h
      cases h
    · cases h
  · rw [hpc] at h
    cases h
  · rw [hpc] at h
    cases h

end Handle

namespace Incoming

variable {r r' : ReaderTask} {inflight : Bytes} {replies : List EslMessage}

theorem of_pc (h : Incoming X r inflight replies) (hparser : r'.parser = r.parser)
    (hmessages : r'.messages = r.messages) (hlive : r'.pc.live = true → r.pc.live = true)
    (hpc : r'.pc.isReplying = false) : Incoming X r' inflight replies where
  taken := by
    rw [ReaderTask.replies, hmessages]
    exact h.taken
  coming := by
    intro h'
    rw [ReaderTask.replies, hmessages, hparser]
    exact h.coming (hlive h')
  inHand := by
    intro m hm
    rw [hm] at hpc
    cases hpc

theorem parse (h : Incoming X r inflight replies) (overflow : Bool) (hpc : r.pc = .parsing) :
    Incoming X (r.parse X overflow) inflight replies := by
  obtain ⟨ms, hdrain, hreplies⟩ := h.coming (by rw [hpc]; rfl)
  unfold ReaderTask.parse
  split
  · rename_i message parser hparse
    -- the message is the first one to come
    have hsome := framing_drain_of_some hparse inflight
    rw [hdrain] at hsome
    generalize hrest :
      (framing X).drain parser.state (parser.buffer.data ++ inflight) = rest at hsome
    obtain ⟨rest, stop⟩ := rest
    obtain ⟨rfl, rfl⟩ := Prod.mk.inj hsome
    have hsplit : replies = (r.messages ++ [message]).filter EslMessage.isReply ++
        rest.filter EslMessage.isReply := by
      rw [hreplies, ReaderTask.replies, ← List.filter_append, ← List.filter_append]
      simp
    refine ⟨?_, fun _ ↦ ⟨rest, ?_, ?_⟩, ?_⟩
    · rw [ReaderTask.replies, ReaderTask.messages_handle]
      exact ⟨_, hsplit.symm⟩
    · rw [ReaderTask.parser_handle]
      exact hrest
    · rw [ReaderTask.replies, ReaderTask.messages_handle]
      exact hsplit
    · intro m hm
      have hpc' : { r with parser := parser, messages := r.messages ++ [message] }.pc = .parsing :=
        hpc
      obtain ⟨rfl, hreply⟩ := ReaderTask.of_handle_replying hpc' hm
      refine ⟨r.replies, ?_⟩
      rw [ReaderTask.replies, ReaderTask.messages_handle, List.filter_append]
      simp [ReaderTask.replies, hreply]
  · rename_i parser hparse
    refine ⟨h.taken, fun _ ↦ ⟨ms, ?_, hreplies⟩, nofun⟩
    rw [← hdrain]
    exact framing_drain_of_none hparse inflight
  · exact ⟨h.taken, nofun, nofun⟩

theorem read_data {chunk rest : Bytes} (h : Incoming X r (chunk ++ rest) replies)
    (hpc : r.pc = .reading) (now : Nat) (livenessTimeoutMs : UInt64) :
    Incoming X (r.read now livenessTimeoutMs (.data chunk)) rest replies := by
  obtain ⟨ms, hdrain, hreplies⟩ := h.coming (by rw [hpc]; rfl)
  unfold ReaderTask.read
  dsimp only
  split
  · rename_i parser hadd
    refine ⟨h.taken, fun _ ↦ ⟨ms, ?_, hreplies⟩, nofun⟩
    obtain ⟨-, rfl⟩ := Prod.mk.inj hadd
    dsimp only
    rw [EslBuffer.data_extendFromSlice, List.append_assoc]
    exact hdrain
  · exact ⟨h.taken, nofun, nofun⟩

theorem read_other {outcome : ReadOutcome} (h : Incoming X r inflight replies)
    (hpc : r.pc = .reading) (hother : ∀ chunk, outcome ≠ .data chunk) (now : Nat)
    (livenessTimeoutMs : UInt64) :
    Incoming X (r.read now livenessTimeoutMs outcome) inflight replies := by
  have hlive : r.pc.live = true := by
    rw [hpc]
    rfl
  cases outcome with
  | data chunk => exact absurd rfl (hother chunk)
  | eof => exact h.of_pc rfl rfl (fun _ ↦ hlive) rfl
  | error e => exact h.of_pc rfl rfl (fun _ ↦ hlive) rfl
  | timedOut =>
      unfold ReaderTask.read
      dsimp only
      split
      · exact h.of_pc rfl rfl (fun _ ↦ hlive) rfl
      · exact h.of_pc rfl rfl (fun _ ↦ hlive) rfl

theorem serve (h : Incoming X r inflight replies) {bytes : Bytes} {m : EslMessage}
    (hframe : frame X .waitingForHeaders bytes = .emit m .waitingForHeaders []) :
    Incoming X r (inflight ++ bytes) (replies ++ [m].filter EslMessage.isReply) where
  taken := h.taken.trans (List.prefix_append _ _)
  coming := by
    intro hlive
    obtain ⟨ms, hdrain, hreplies⟩ := h.coming hlive
    refine ⟨ms ++ [m], ?_, ?_⟩
    · rw [← List.append_assoc, (framing X).drain_append, hdrain]
      have hone : (framing X).drain .waitingForHeaders bytes =
          ([m], .waiting .waitingForHeaders []) := by
        have hemit : (framing X).step .waitingForHeaders bytes = .emit m .waitingForHeaders [] :=
          hframe
        have hnil : (framing X).step .waitingForHeaders [] = .more .waitingForHeaders [] := rfl
        rw [(framing X).drain_of_emit hemit, (framing X).drain_of_more hnil]
      simp only [Incremental.Decoder.resume, List.nil_append, hone]
    · rw [hreplies, List.filter_append, List.append_assoc]
  inHand := h.inHand

end Incoming

/-! ## Replies and calls -/

namespace Clients

variable {c d : Clients} {replies replies' : List EslMessage} {id : Nat} {m : EslMessage}

theorem Answered.mono (h : c.Answered replies id m) (hwritten : c.written <+: d.written)
    (hreplies : replies <+: replies') : d.Answered replies' id m := by
  obtain ⟨k, hid, hm⟩ := h
  obtain ⟨hlt, rfl⟩ := List.getElem?_eq_some_iff.mp hid
  obtain ⟨hlt', rfl⟩ := List.getElem?_eq_some_iff.mp hm
  refine ⟨k, ?_, ?_⟩
  · exact List.prefix_iff_getElem?.mp hwritten k hlt
  · exact List.prefix_iff_getElem?.mp hreplies k hlt'

/-- A call has received, and returned, only the reply to its own command. -/
structure Matched (c : Clients) (replies : List EslMessage) : Prop where
  answered : replies.length ≤ c.written.length
  reply : ∀ id m, (c.calls id).state.waiting = true → (c.calls id).reply = .sent m →
    c.Answered replies id m
  returned : ∀ id r, (c.calls id).state = .returned (.ok r) →
    ∃ m, c.Answered replies id m ∧ r = m.intoResponse

theorem matched_init : Clients.init.Matched [] where
  answered := le_refl 0
  reply := by
    intro id m h
    cases h
  returned := by
    intro id r h
    cases h

theorem Matched.mono (h : c.Matched replies) (hreplies : replies <+: replies')
    (hlength : replies'.length ≤ c.written.length) : c.Matched replies' where
  answered := hlength
  reply := by
    intro id m hwaiting hreply
    exact (h.reply id m hwaiting hreply).mono (List.prefix_refl _) hreplies
  returned := by
    intro id r hstate
    obtain ⟨m, hm, hr⟩ := h.returned id r hstate
    exact ⟨m, hm.mono (List.prefix_refl _) hreplies, hr⟩

theorem waiting_of_effect {status : ConnectionStatus} {op : CallOp} {k : Nat}
    (hstep : Effect status c id op d) (hwaiting : (d.calls k).state.waiting = true)
    (hreply : (d.calls k).reply = .sent m) : (c.calls k).state.waiting = true := by
  by_cases heq : k = id
  · subst heq
    cases hstep with
    | stored _ =>
        dsimp only at hreply
        rw [reply_setState, reply_setReply_self] at hreply
        cases hreply
    | wrote hstate _ _ _ =>
        rw [hstate]
        rfl
    | awaits hstate =>
        rw [hstate]
        rfl
    | notConnected _ _ | invalid _ _ | started _ _ _ | locked _ _ | failed _ _ | resolved _ _
    | abandoned _ _ | expired _ _ | cleared _ | cancelledWaiting _ | cancelledHolding _ =>
        simp [finish, setState, CallState.waiting] at hwaiting
  · rwa [state_of_effect_of_ne hstep heq] at hwaiting

theorem returned_of_effect {status : ConnectionStatus} {op : CallOp} {r : EslResponse}
    (hstep : Effect status c id op d) (hstate : (d.calls id).state = .returned (.ok r)) :
    (c.calls id).state.waiting = true ∧
      ∃ m, (c.calls id).reply = .sent m ∧ r = m.intoResponse := by
  cases hstep with
  | @resolved timeoutMs message hawaiting hreply =>
      rw [state_finish] at hstate
      refine ⟨?_, message, hreply, ?_⟩
      · rw [hawaiting]
        rfl
      · cases hstate
        rfl
  | notConnected _ _ | invalid _ _ | started _ _ _ | locked _ _ | stored _ | wrote _ _ _ _
  | awaits _ | failed _ _ | abandoned _ _ | expired _ _ | cleared _ | cancelledWaiting _
  | cancelledHolding _ => simp [finish, setState] at hstate

theorem matched_step {status : ConnectionStatus} {op : CallOp} (h : c.Matched replies)
    (hstep : Effect status c id op d) : d.Matched replies := by
  have hwritten := written_prefix_of_effect hstep
  refine ⟨h.answered.trans hwritten.length_le, ?_, ?_⟩
  · intro k m hwaiting hreply
    have hwaiting' := waiting_of_effect hstep hwaiting hreply
    have hreply' := reply_eq_sent_of_effect hstep hreply
    exact (h.reply k m hwaiting' hreply').mono hwritten (List.prefix_refl _)
  · intro k r hstate
    by_cases heq : k = id
    · subst heq
      obtain ⟨hwaiting, m, hreply, hr⟩ := returned_of_effect hstep hstate
      exact ⟨m, (h.reply k m hwaiting hreply).mono hwritten (List.prefix_refl _), hr⟩
    · rw [state_of_effect_of_ne hstep heq] at hstate
      obtain ⟨m, hm, hr⟩ := h.returned k r hstate
      exact ⟨m, hm.mono hwritten (List.prefix_refl _), hr⟩

theorem Matched.deliver (h : c.Matched replies)
    (hturn : ∀ id, c.pendingReply = some id → (c.calls id).state.waiting = true →
      c.Answered replies id m) : (c.deliver m).Matched replies := by
  have hwritten : c.written <+: (c.deliver m).written := by
    rw [written_deliver]
  refine ⟨h.answered.trans hwritten.length_le, ?_, ?_⟩
  · intro k m' hwaiting hreply
    rw [state_deliver] at hwaiting
    apply Answered.mono _ hwritten (List.prefix_refl _)
    unfold Clients.deliver at hreply
    split at hreply
    · rename_i owner howner
      by_cases heq : k = owner
      · subst heq
        rw [reply_setReply_self] at hreply
        cases hreply
        exact hturn k howner hwaiting
      · rw [calls_setReply_of_ne _ heq] at hreply
        exact h.reply k m' hwaiting hreply
    · exact h.reply k m' hwaiting hreply
  · intro k r hstate
    rw [state_deliver] at hstate
    obtain ⟨m', hm', hr⟩ := h.returned k r hstate
    exact ⟨m', hm'.mono hwritten (List.prefix_refl _), hr⟩

end Clients

/-! ## Runs of the system -/

structure NetInvariant (X : Crates) (s : Net) : Prop where
  incoming : Incoming X s.conn.reader s.inflight s.replies
  matched : s.conn.clients.Matched s.replies
  writtenOnce : s.conn.clients.WrittenOnce

namespace NetInvariant

variable {s : Net}

/-- The reply in the reader's hand is the one that the oldest command is owed. -/
theorem answered_of_replying (h : NetInvariant X s) (hturn : s.SlotInTurn) {m : EslMessage}
    (hpc : s.conn.reader.pc = .replying m) {id : Nat}
    (hslot : s.conn.clients.pendingReply = some id)
    (hwaiting : (s.conn.clients.calls id).state.waiting = true) :
    s.conn.clients.Answered s.replies id m := by
  obtain ⟨past, hpast⟩ := h.incoming.inHand m hpc
  have htaken := h.incoming.taken
  rw [hpast] at htaken
  have hreply : s.replies[past.length]? = some m := by
    have hlast := List.prefix_iff_getElem?.mp htaken past.length (by simp)
    simpa using hlast
  have hlt : past.length < s.conn.clients.written.length := by
    have hle := htaken.length_le
    have hanswered := h.matched.answered
    rw [List.length_append, List.length_singleton] at hle
    omega
  refine ⟨past.length, ?_, hreply⟩
  rw [List.getElem?_eq_getElem hlt]
  apply congrArg
  apply hturn id hslot hwaiting
  have howed : s.owed = s.conn.clients.written.drop past.length := by
    rw [Net.owed, hpast, hpc]
    simp [ReaderPc.isReplying]
  rw [howed, List.drop_eq_getElem_cons hlt]
  exact List.mem_cons_self

theorem matched_step (h : NetInvariant X s) {a : Act} {conn : Connection}
    (hturn : Net.InTurn s (.conn a)) (hstep : s.conn.step X a = some conn) :
    conn.clients.Matched s.replies := by
  have hm := h.matched
  refine Connection.clients_of_step (Clients.Matched · s.replies) hstep hm ?_ ?_
    ⟨hm.answered, hm.reply, hm.returned⟩ fun _ ↦ ⟨hm.answered, hm.reply, hm.returned⟩
  · rintro message rfl hpc
    apply hm.deliver
    intro id hslot hwaiting
    refine h.answered_of_replying (hturn ?_) hpc hslot hwaiting
    rw [hpc]
    rfl
  · intro id op clients _ heffect
    exact Clients.matched_step hm heffect

theorem incoming_step (h : NetInvariant X s) {a : Act} {conn : Connection}
    (hstep : s.conn.step X a = some conn) (hread : ∀ chunk, a ≠ .read (.data chunk)) :
    Incoming X conn.reader s.inflight s.replies := by
  have hi := h.incoming
  have hlive : ∀ {pc : ReaderPc}, s.conn.reader.pc = pc → pc.live = true →
      s.conn.reader.pc.live = true := fun hpc hlive ↦ hpc ▸ hlive
  cases Connection.effect_of_step X hstep with
  | parsed hpc => exact hi.parse _ hpc
  | noticed hpc _ _ => exact hi.of_pc rfl rfl (fun _ ↦ hlive hpc rfl) rfl
  | noticeRefused hpc _ => exact hi.of_pc rfl rfl (fun _ ↦ hlive hpc rfl) rfl
  | dispatched hpc _ _ => exact hi.of_pc rfl rfl (fun _ ↦ hlive hpc rfl) rfl
  | itemRefused hpc _ => exact hi.of_pc rfl rfl (fun _ ↦ hlive hpc rfl) rfl
  | replied hpc => exact hi.of_pc rfl rfl (fun _ ↦ hlive hpc rfl) rfl
  | returned _ => exact hi.of_pc rfl rfl nofun rfl
  | unwound _ => exact hi.of_pc rfl rfl nofun rfl
  | read hpc _ =>
      apply hi.read_other hpc
      rintro chunk rfl
      exact hread chunk rfl
  | panicked _ => exact hi.of_pc rfl rfl nofun rfl
  | called _ | shutdown _ | livenessSet | commandTimeoutSet | received _ | streamDropped | ticked =>
      exact hi

end NetInvariant

theorem netInvariant_step {s t : Net} {a : NetAct} (h : NetInvariant X s)
    (hturn : Net.InTurn s a) (hstep : s.step X a = some t) : NetInvariant X t := by
  cases Net.effect_of_step X hstep with
  | @told bytes message hframe hreply =>
      refine ⟨?_, h.matched, h.writtenOnce⟩
      have hincoming := h.incoming.serve hframe
      rw [List.filter_cons_of_neg (by simp [hreply]), List.filter_nil, List.append_nil] at hincoming
      exact hincoming
  | @answered bytes message hframe hreply hlength =>
      refine ⟨?_, ?_, h.writtenOnce⟩
      · have hincoming := h.incoming.serve hframe
        rw [List.filter_cons_of_pos hreply, List.filter_nil] at hincoming
        exact hincoming
      · apply h.matched.mono (List.prefix_append _ _)
        rw [List.length_append, List.length_singleton]
        exact hlength
  | @arrived chunk conn hconn hsplit =>
      refine ⟨?_, h.matched_step hturn hconn, Connection.writtenOnce_step X h.writtenOnce hconn⟩
      cases Connection.effect_of_step X hconn with
      | read hpc _ =>
          have hincoming := h.incoming
          rw [hsplit] at hincoming
          exact hincoming.read_data hpc s.conn.now s.conn.livenessTimeoutMs
  | moved hconn hread =>
      exact ⟨h.incoming_step hconn hread, h.matched_step hturn hconn,
        Connection.writtenOnce_step X h.writtenOnce hconn⟩

/-- If the bytes at the start bring no reply, and the reader hands over every reply
in turn, then a call only ever returns the reply to its own command. -/
theorem replies_correlated (X : Crates) {eventQueueSize : Nat} {parser : EslParser}
    {inflight : Bytes} {ms : List EslMessage} {as : List NetAct} {t : Net}
    (hstart : (framing X).drain parser.state (parser.buffer.data ++ inflight) =
      (ms, .waiting .waitingForHeaders []))
    (hquiet : ∀ m ∈ ms, m.isReply = false)
    (hrun : run (Net.step X) (.init eventQueueSize parser inflight) as = some t)
    (hmeets : Meets (Net.step X) Net.InTurn (.init eventQueueSize parser inflight) as) :
    t.Correlated := by
  have hstep : ∀ (s : Net) (a : NetAct) (t : Net), NetInvariant X s → Net.InTurn s a →
      s.step X a = some t → NetInvariant X t :=
    fun _ _ _ hs hturn ↦ netInvariant_step hs hturn
  have hnone : ms.filter EslMessage.isReply = [] := by
    apply List.filter_eq_nil_iff.mpr
    intro m hm
    simp [hquiet m hm]
  have hinit : NetInvariant X (.init eventQueueSize parser inflight) := by
    refine ⟨⟨List.prefix_refl _, fun _ ↦ ⟨ms, hstart, ?_⟩, nofun⟩, Clients.matched_init, ?_⟩
    · rw [hnone]
      rfl
    · exact ⟨List.nodup_nil, nofun⟩
  have h := invariant_of_meets hstep hinit hrun hmeets
  exact ⟨h.writtenOnce.nodup, h.matched.returned⟩

/-! ## Two runs -/

def apiReply (body : String) : Bytes :=
  utf8Encode ("Content-Type: api/response\nContent-Length: 2\n\n" ++ body).toList

/-- The call `id` sends `api status` and waits. -/
def sendApi (id : Nat) : List NetAct :=
  [.conn (.call id (.start .byName (.api "status".toList))), .conn (.call id .lock),
    .conn (.call id .store), .conn (.call id (.write 12)), .conn (.call id .await)]

/-- The reader takes all of the reply and handles it. -/
def takeReply (bytes : Bytes) : List NetAct :=
  [.conn .reader, .conn (.read (.data bytes)), .conn .reader, .conn .reader]

def repliesInTime : List NetAct :=
  sendApi 0 ++ [.serve (apiReply "r0")] ++ takeReply (apiReply "r0") ++
    [.conn (.call 0 .resolve)] ++
    sendApi 1 ++ [.serve (apiReply "r1")] ++ takeReply (apiReply "r1") ++
      [.conn (.call 1 .resolve)]

/-- The first call runs into its timeout, and its reply arrives when the second
call waits. -/
def lateReply : List NetAct :=
  sendApi 0 ++ [.conn (.call 0 .expire), .conn (.call 0 .clear)] ++ sendApi 1 ++
    [.serve (apiReply "r0")] ++ takeReply (apiReply "r0") ++ [.conn (.call 1 .resolve)]

/-- The body of the response that the call has returned. -/
def CallState.responseBody : CallState → Option Str
  | .returned (.ok response) => response.body
  | _ => none

theorem replies_correlated_repliesInTime :
    ∃ t, run (Net.step .percentOnly) (.init 1 EslParser.new []) repliesInTime = some t ∧
      (t.conn.clients.calls 0).state.responseBody = some "r0".toList ∧
      (t.conn.clients.calls 1).state.responseBody = some "r1".toList ∧ t.Correlated := by
  have hrun : (run (Net.step .percentOnly) (.init 1 EslParser.new []) repliesInTime).any
      (fun t ↦ (t.conn.clients.calls 0).state.responseBody = some "r0".toList ∧
        (t.conn.clients.calls 1).state.responseBody = some "r1".toList) = true := by
    decide +kernel
  obtain ⟨t, ht, hfirst, hsecond⟩ := exists_run_of_any hrun
  have hstart : (framing .percentOnly).drain EslParser.new.state
      (EslParser.new.buffer.data ++ []) = ([], .waiting .waitingForHeaders []) :=
    (framing .percentOnly).drain_of_more rfl
  have hmeets : Meets (Net.step .percentOnly) Net.InTurn (.init 1 EslParser.new [])
      repliesInTime := by
    decide +kernel
  exact ⟨t, ht, hfirst, hsecond, replies_correlated .percentOnly hstart (by simp) ht hmeets⟩

theorem not_correlated_lateReply :
    ¬ ∀ (X : Crates) (eventQueueSize : Nat) (as : List NetAct) (t : Net),
      run (Net.step X) (.init eventQueueSize EslParser.new []) as = some t → t.Correlated := by
  intro h
  have hrun : (run (Net.step .percentOnly) (.init 1 EslParser.new []) lateReply).any
      (fun t ↦ (t.conn.clients.calls 1).state.responseBody = some "r0".toList ∧
        t.conn.clients.written = [0, 1] ∧ t.replies.length = 1) = true := by
    decide +kernel
  obtain ⟨t, ht, hbody, hwritten, hlength⟩ := exists_run_of_any hrun
  obtain ⟨-, hreturned⟩ := h _ _ _ t ht
  cases hstate : (t.conn.clients.calls 1).state with
  | returned result =>
      rw [hstate] at hbody
      cases result with
      | error e => cases hbody
      | ok response =>
          obtain ⟨message, ⟨k, hid, hreply⟩, -⟩ := hreturned 1 response hstate
          -- there is one reply, and it answers the first command
          obtain ⟨hlt, -⟩ := List.getElem?_eq_some_iff.mp hreply
          obtain rfl : k = 0 := by omega
          rw [hwritten] at hid
          cases hid
  | idle | locking | storing | writing _ | awaiting _ | timedOut _ | cancelled =>
      rw [hstate] at hbody
      cases hbody

end FreeswitchEsl
