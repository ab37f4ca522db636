import FreeswitchEsl.Connection.Replies

/-!
# Serialised sending

As long as no call is dropped midway and no write fails, the writer lock orders the
calls: the slot never loses a sender, a reply completes at most one call, and the
wire carries whole commands one behind the other.
-/

namespace FreeswitchEsl

open Text Transition

variable (X : Crates)

/-! ## The ledger of replies -/

/-- A connection with a ledger: for each reply that the reader has handled, the call
whose sender it took from the slot. -/
structure Sending where
  conn : Connection
  takers : List (Option Nat)

namespace Sending

def init (eventQueueSize : Nat) (parser : EslParser) : Sending :=
  ⟨.init eventQueueSize parser, []⟩

/-- The entry that a step adds to the ledger. -/
def taken (s : Sending) : Act → List (Option Nat)
  | .reader => if s.conn.reader.pc.isReplying then [s.conn.clients.pendingReply] else []
  | _ => []

def step (s : Sending) (a : Act) : Option Sending :=
  (s.conn.step X a).map fun conn ↦ ⟨conn, s.takers ++ s.taken a⟩

/-- The reader took the reply `k` and found the sender of the call in the slot. -/
def Took (s : Sending) (k id : Nat) (message : EslMessage) : Prop :=
  s.takers[k]? = some (some id) ∧ s.conn.reader.replies[k]? = some message

end Sending

/-- No call is dropped midway, and no write fails. -/
def Undisturbed (_ : Sending) (a : Act) : Prop :=
  match a with
  | .call _ .cancel | .call _ (.fail _) => False
  | _ => True

instance (s : Sending) : (a : Act) → Decidable (Undisturbed s a)
  | .call _ .cancel | .call _ (.fail _) => .isFalse id
  | .call _ (.start _ _) | .call _ .lock | .call _ .store | .call _ (.write _) | .call _ .await
  | .call _ .resolve | .call _ .expire | .call _ .clear | .reader | .read _ | .panic
  | .disconnect | .setLivenessTimeout _ | .setCommandTimeout _ | .recv | .dropStream
  | .tick _ => .isTrue trivial

/-- The call has stored its sender and has not returned. -/
def CallState.stored : CallState → Bool
  | .writing _ | .awaiting _ | .timedOut _ => true
  | _ => false

/-- The call has returned a response. -/
def CallState.completed : CallState → Bool
  | .returned (.ok _) => true
  | _ => false

/-- What senders may rely on. -/
structure Sending.Serialised (s : Sending) : Prop where
  alone : ∀ id other, (s.conn.clients.calls id).state.stored = true →
    (s.conn.clients.calls other).state.stored = true → other = id
  slotFree : ∀ id, (s.conn.clients.calls id).state = .storing →
    s.conn.clients.pendingReply = none
  ledger : s.takers.length + s.conn.reader.pc.isReplying.toNat = s.conn.reader.replies.length
  completed : ∃ replyOf : Nat → Nat,
    (∀ id response, (s.conn.clients.calls id).state = .returned (.ok response) →
      ∃ message, s.Took (replyOf id) id message ∧ response = message.intoResponse) ∧
    ∀ id other, (s.conn.clients.calls id).state.completed = true →
      (s.conn.clients.calls other).state.completed = true → replyOf other = replyOf id → other = id
  wire : ∃ done part, s.conn.clients.lockOrder = done ++ s.conn.clients.writerLock.toList ∧
    s.conn.clients.wire = done.flatMap (fun id ↦ (s.conn.clients.calls id).text) ++ part ∧
      match s.conn.clients.writerLock with
      | none => part = []
      | some id => part <+: (s.conn.clients.calls id).text

theorem CallState.holdsWriter_of_stored {s : CallState} (h : s.stored = true) :
    s.holdsWriter = true := by
  cases s with
  | writing rest => rfl
  | awaiting timeoutMs => rfl
  | timedOut timeoutMs => rfl
  | idle | locking | storing | returned _ | cancelled => cases h

/-! ## The slot -/

namespace Clients

variable {c d : Clients} {status : ConnectionStatus} {id k : Nat} {op : CallOp}

/-- The sender in the slot belongs to a call that waits for its reply. -/
def SlotOwned (c : Clients) : Prop :=
  ∀ id, c.pendingReply = some id →
    (c.calls id).state.stored = true ∧ (c.calls id).reply = .pending

theorem SlotOwned.of_move (h : c.SlotOwned) {call : Call}
    (hcalls : d.calls = Function.update c.calls id call) (hslot : d.pendingReply = c.pendingReply)
    (hcall : (c.calls id).state.stored = true → (c.calls id).reply = .pending →
      call.state.stored = true ∧ call.reply = .pending) : d.SlotOwned := by
  intro k hk
  rw [hslot] at hk
  obtain ⟨hstored, hpending⟩ := h k hk
  rw [hcalls]
  by_cases heq : k = id
  · subst heq
    rw [Function.update_self]
    exact hcall hstored hpending
  · rw [Function.update_of_ne heq]
    exact ⟨hstored, hpending⟩

theorem SlotOwned.of_none (h : c.pendingReply = none) : c.SlotOwned := by
  intro k hk
  rw [h] at hk
  cases hk

/-- Every step of a call that is neither dropped nor fails leaves the slot to a call
that waits. -/
theorem slotOwned_step (h : c.SlotOwned) (hcancel : op ≠ .cancel) (hfail : ∀ e, op ≠ .fail e)
    (hstep : Effect status c id op d) : d.SlotOwned := by
  cases hstep with
  | notConnected hstate _ | invalid hstate _ | started hstate _ _ | locked hstate _ =>
      refine h.of_move rfl rfl fun hstored ↦ ?_
      rw [hstate] at hstored
      cases hstored
  | stored _ =>
      intro k hk
      obtain rfl : id = k := Option.some.inj hk
      dsimp only
      rw [calls_setState_self, reply_setReply_self]
      exact ⟨rfl, rfl⟩
  | wrote _ _ _ _ => exact h.of_move rfl rfl fun _ hpending ↦ ⟨rfl, hpending⟩
  | awaits _ => exact h.of_move rfl rfl fun _ hpending ↦ ⟨rfl, hpending⟩
  | expired _ _ => exact h.of_move rfl rfl fun _ hpending ↦ ⟨rfl, hpending⟩
  | resolved _ hreply | abandoned _ hreply =>
      refine h.of_move rfl rfl fun _ hpending ↦ ?_
      rw [hreply] at hpending
      cases hpending
  | cleared _ => exact SlotOwned.of_none pendingReply_dropSender
  | failed _ _ => exact absurd rfl (hfail _)
  | cancelledWaiting _ | cancelledHolding _ => exact absurd rfl hcancel

/-- A call that is about to store its sender finds the slot empty. -/
theorem SlotOwned.pendingReply_eq_none (h : c.SlotOwned) (hexclusive : c.Exclusive)
    (hstate : (c.calls id).state = .storing) : c.pendingReply = none := by
  cases hslot : c.pendingReply with
  | none => rfl
  | some k =>
      obtain ⟨hstored, -⟩ := h k hslot
      have hholds : (c.calls id).state.holdsWriter = true := by
        rw [hstate]
        rfl
      by_cases heq : k = id
      · subst heq
        rw [hstate] at hstored
        cases hstored
      · have hfree := hexclusive.alone hholds heq
        rw [CallState.holdsWriter_of_stored hstored] at hfree
        cases hfree

/-! ## The wire -/

@[simp] theorem text_setReply (r : Oneshot) :
    ((c.setReply id r).calls k).text = (c.calls k).text := by
  by_cases h : k = id
  · subst h
    simp [setReply]
  · simp [setReply, Function.update_of_ne h]

@[simp] theorem text_setState (s : CallState) :
    ((c.setState id s).calls k).text = (c.calls k).text := by
  by_cases h : k = id
  · subst h
    simp [setState]
  · simp [setState, Function.update_of_ne h]

@[simp] theorem text_dropSender : (c.dropSender.calls k).text = (c.calls k).text := by
  unfold dropSender
  split
  · exact text_setReply _
  · rfl

@[simp] theorem text_deliver (m : EslMessage) :
    ((c.deliver m).calls k).text = (c.calls k).text := by
  unfold deliver
  split
  · exact text_setReply _
  · rfl

/-- A call keeps its text once it has one. -/
theorem text_of_effect (hstep : Effect status c id op d) (h : (c.calls k).state ≠ .idle) :
    (d.calls k).text = (c.calls k).text := by
  cases hstep with
  | started hstate _ _ =>
      have hne : k ≠ id := by
        rintro rfl
        exact h hstate
      dsimp only
      rw [Function.update_of_ne hne]
  | stored _ =>
      dsimp only
      rw [text_setState, text_setReply, text_dropSender]
  | cleared _ =>
      change ((c.dropSender.setState id _).calls k).text = _
      rw [text_setState, text_dropSender]
  | notConnected _ _ | invalid _ _ | locked _ _ | wrote _ _ _ _ | awaits _ | failed _ _
  | resolved _ _ | abandoned _ _ | expired _ _ | cancelledWaiting _ | cancelledHolding _ =>
      exact text_setState _

end Clients

/-- The part of its text that the holder of the lock has written. -/
def CallState.HasWritten (text : Bytes) : CallState → Bytes → Prop
  | .storing, part => part = []
  | .writing rest, part => part ++ rest = text
  | .awaiting _, part | .timedOut _, part => part = text
  | _, _ => False

theorem CallState.HasWritten.part_of_text {s : CallState} {text part : Bytes}
    (h : s.HasWritten text part) : part <+: text := by
  cases s with
  | storing =>
      obtain rfl : part = [] := h
      exact List.nil_prefix
  | writing rest => exact ⟨rest, h⟩
  | awaiting timeoutMs =>
      obtain rfl : part = text := h
      exact List.prefix_refl _
  | timedOut timeoutMs =>
      obtain rfl : part = text := h
      exact List.prefix_refl _
  | idle | locking | returned _ | cancelled => exact h.elim

namespace Clients

variable {c d : Clients} {status : ConnectionStatus} {id k : Nat} {op : CallOp}
  {done : List Nat} {part : Bytes}

/-- The wire carries the texts of the calls that had the lock, and then what its
holder has written. -/
structure InOrder (c : Clients) (done : List Nat) (part : Bytes) : Prop where
  order : c.lockOrder = done ++ c.writerLock.toList
  wire : c.wire = done.flatMap (fun id ↦ (c.calls id).text) ++ part
  free : c.writerLock = none → part = []
  held : ∀ id, c.writerLock = some id → (c.calls id).state.HasWritten (c.calls id).text part
  begun : ∀ id ∈ done, (c.calls id).state ≠ .idle

namespace InOrder

theorem flatMap_text (h : c.InOrder done part) (hstep : Effect status c id op d) :
    done.flatMap (fun id ↦ (d.calls id).text) = done.flatMap (fun id ↦ (c.calls id).text) := by
  apply List.flatMap_congr
  intro k hk
  exact text_of_effect hstep (h.begun k hk)

theorem ne_idle (h : c.InOrder done part) (hlock : c.writerLock = some id) :
    (c.calls id).state ≠ .idle := by
  intro hidle
  have hwritten := h.held id hlock
  rw [hidle] at hwritten
  exact hwritten

/-- The step leaves the lock alone; only its holder writes. -/
theorem of_effect (h : c.InOrder done part) (hstep : Effect status c id op d) {new : Bytes}
    (horder : d.lockOrder = c.lockOrder) (hlock : d.writerLock = c.writerLock)
    (hwire : d.wire = c.wire ++ new) (hnew : c.writerLock ≠ some id → new = [])
    (hid : c.writerLock = some id →
      (d.calls id).state.HasWritten (c.calls id).text (part ++ new)) :
    d.InOrder done (part ++ new) where
  order := by
    rw [horder, hlock]
    exact h.order
  wire := by
    rw [hwire, h.wire, h.flatMap_text hstep, List.append_assoc]
  free := by
    intro hfree
    rw [hlock] at hfree
    have hother : c.writerLock ≠ some id := by
      rw [hfree]
      nofun
    rw [h.free hfree, hnew hother]
    rfl
  held := by
    intro k hk
    rw [hlock] at hk
    rw [text_of_effect hstep (h.ne_idle hk)]
    by_cases heq : k = id
    · subst heq
      exact hid hk
    · have hother : c.writerLock ≠ some id := by
        rw [hk]
        exact fun hsame ↦ heq (Option.some.inj hsame)
      rw [state_of_effect_of_ne hstep heq, hnew hother, List.append_nil]
      exact h.held k hk
  begun := fun k hk ↦ ne_idle_of_effect hstep (h.begun k hk)

theorem of_quiet (h : c.InOrder done part) (hstep : Effect status c id op d)
    (horder : d.lockOrder = c.lockOrder) (hlock : d.writerLock = c.writerLock)
    (hwire : d.wire = c.wire)
    (hid : c.writerLock = some id → (d.calls id).state.HasWritten (c.calls id).text part) :
    d.InOrder done part := by
  have hnothing : d.wire = c.wire ++ [] := by rw [hwire, List.append_nil]
  have hsame := h.of_effect hstep horder hlock hnothing (fun _ ↦ rfl) (by rwa [List.append_nil])
  rwa [List.append_nil] at hsame

/-- The holder gives up the lock behind its whole text. -/
theorem of_release (h : c.InOrder done part) (hstep : Effect status c id op d)
    (hholds : c.writerLock = some id) (hwhole : part = (c.calls id).text)
    (horder : d.lockOrder = c.lockOrder) (hlock : d.writerLock = none)
    (hwire : d.wire = c.wire) : d.InOrder (done ++ [id]) [] where
  order := by
    rw [horder, hlock, h.order, hholds]
    simp
  wire := by
    rw [List.flatMap_append, h.flatMap_text hstep, hwire, h.wire, hwhole, List.flatMap_singleton,
      text_of_effect hstep (h.ne_idle hholds), List.append_nil]
  free := fun _ ↦ rfl
  held := by
    intro k hk
    rw [hlock] at hk
    cases hk
  begun := by
    intro k hk
    apply ne_idle_of_effect hstep
    rcases List.mem_append.mp hk with hk | hk
    · exact h.begun k hk
    · obtain rfl := List.mem_singleton.mp hk
      exact h.ne_idle hholds

end InOrder

/-- Every step of a call that is neither dropped nor fails keeps the wire in order. -/
theorem inOrder_step (h : c.InOrder done part) (hexclusive : c.Exclusive)
    (hcancel : op ≠ .cancel) (hfail : ∀ e, op ≠ .fail e) (hstep : Effect status c id op d) :
    ∃ done' part', d.InOrder done' part' := by
  have hholder : ∀ {state}, (c.calls id).state = state → state.holdsWriter = true →
      c.writerLock = some id := by
    rintro _ rfl hholds
    exact hexclusive.holder id hholds
  have hheld := h.held id
  have hstep' := hstep
  cases hstep with
  | notConnected hstate _ | invalid hstate _ | started hstate _ _ =>
      refine ⟨done, part, h.of_quiet hstep' rfl rfl rfl fun hlock ↦ ?_⟩
      exact absurd hstate (h.ne_idle hlock)
  | locked hstate hlock =>
      refine ⟨done, [], ⟨?_, ?_, nofun, ?_, ?_⟩⟩
      · dsimp only
        rw [h.order, hlock]
        simp
      · rw [h.flatMap_text hstep']
        change c.wire = _
        rw [h.wire, h.free hlock]
      · intro k hk
        obtain rfl : id = k := Option.some.inj hk
        dsimp only
        rw [calls_setState_self]
        rfl
      · exact fun k hk ↦ ne_idle_of_effect hstep' (h.begun k hk)
  | stored hstate =>
      refine ⟨done, part, h.of_quiet hstep' ?_ ?_ ?_ fun hlock ↦ ?_⟩
      · exact lockOrder_dropSender
      · exact writerLock_dropSender
      · exact wire_dropSender
      · have hnone := hheld hlock
        rw [hstate] at hnone
        obtain rfl : part = [] := hnone
        dsimp only
        rw [calls_setState_self]
        rfl
  | @wrote rest count hstate _ _ _ =>
      have hlock := hholder hstate rfl
      refine ⟨done, part ++ rest.take count, h.of_effect hstep' rfl rfl rfl
        (fun hother ↦ absurd hlock hother) fun _ ↦ ?_⟩
      have hpart := hheld hlock
      rw [hstate] at hpart
      dsimp only
      rw [calls_setState_self]
      change part ++ rest.take count ++ rest.drop count = (c.calls id).text
      rw [List.append_assoc, List.take_append_drop]
      exact hpart
  | awaits hstate =>
      refine ⟨done, part, h.of_quiet hstep' rfl rfl rfl fun hlock ↦ ?_⟩
      have hpart := hheld hlock
      rw [hstate] at hpart
      rw [calls_setState_self]
      change part = (c.calls id).text
      rw [← hpart, List.append_nil]
  | expired hstate _ =>
      refine ⟨done, part, h.of_quiet hstep' rfl rfl rfl fun hlock ↦ ?_⟩
      have hpart := hheld hlock
      rw [hstate] at hpart
      rw [calls_setState_self]
      exact hpart
  | resolved hstate _ | abandoned hstate _ =>
      have hlock := hholder hstate rfl
      have hpart := hheld hlock
      rw [hstate] at hpart
      exact ⟨_, _, h.of_release hstep' hlock hpart rfl rfl rfl⟩
  | cleared hstate =>
      have hlock := hholder hstate rfl
      have hpart := hheld hlock
      rw [hstate] at hpart
      exact ⟨_, _, h.of_release hstep' hlock hpart lockOrder_dropSender rfl wire_dropSender⟩
  | failed _ _ => exact absurd rfl (hfail _)
  | cancelledWaiting _ | cancelledHolding _ => exact absurd rfl hcancel

end Clients

/-! ## The ledger -/

/-- The reply that the reader has parsed and not handled. -/
def ReaderPc.inHand : ReaderPc → List EslMessage
  | .replying message => [message]
  | _ => []

variable {X}

theorem ReaderTask.replies_parse {r : ReaderTask} {overflow : Bool} (hpc : r.pc = .parsing) :
    (r.parse X overflow).replies = r.replies ++ (r.parse X overflow).pc.inHand := by
  rcases ReaderTask.parse_cases (X := X) overflow hpc with
    ⟨m, hm, hmessages, -, hnext⟩ | ⟨m, hm, hmessages, -, hnext⟩ | ⟨ms, hms, hmessages, hnext⟩
  · have hquiet : m.isReply = false := by simp [EslMessage.isReply, hm]
    rw [ReaderTask.replies, hmessages, List.filter_append, hnext]
    split <;> simp [ReaderPc.inHand, hquiet, ReaderTask.replies]
  · have hreply : m.isReply = true := decide_eq_true hm
    rw [ReaderTask.replies, hmessages, List.filter_append, hnext]
    simp [ReaderPc.inHand, hreply, ReaderTask.replies]
  · have hquiet : ms.filter EslMessage.isReply = [] := by
      apply List.filter_eq_nil_iff.mpr
      intro m hm
      obtain ⟨-, hcommand, hapi⟩ := hms m hm
      simp [EslMessage.isReply, hcommand, hapi]
    rw [ReaderTask.replies, hmessages, List.filter_append, hquiet]
    rcases hnext with ⟨-, hnext | hnext⟩ | ⟨-, hnext⟩ <;> rw [hnext] <;> rfl

namespace Sending

variable {s t : Sending} {a : Act}

/-- The ledger has an entry for every reply that was handled, and every reply that a
call has got is entered. -/
structure Recorded (s : Sending) : Prop where
  handled : ∃ handled, s.conn.reader.replies = handled ++ s.conn.reader.pc.inHand ∧
    handled.length = s.takers.length
  reply : ∀ id m, (s.conn.clients.calls id).reply = .sent m → ∃ k, s.Took k id m
  returned : ∀ id r, (s.conn.clients.calls id).state = .returned (.ok r) →
    ∃ k m, s.Took k id m ∧ r = m.intoResponse

theorem Took.mono {k id : Nat} {m : EslMessage} (h : s.Took k id m)
    (htakers : s.takers <+: t.takers)
    (hreplies : s.conn.reader.replies <+: t.conn.reader.replies) : t.Took k id m := by
  obtain ⟨hlt, hid⟩ := List.getElem?_eq_some_iff.mp h.1
  obtain ⟨hlt', hm⟩ := List.getElem?_eq_some_iff.mp h.2
  refine ⟨?_, ?_⟩
  · rw [List.prefix_iff_getElem?.mp htakers k hlt, hid]
  · rw [List.prefix_iff_getElem?.mp hreplies k hlt', hm]

theorem taken_of_not_replying (h : s.conn.reader.pc.isReplying = false) : s.taken a = [] := by
  unfold taken
  split
  · rw [h]
    rfl
  · rfl

namespace Recorded

theorem of_reader (h : s.Recorded) {conn : Connection} (hclients : conn.clients = s.conn.clients)
    (hidle : s.conn.reader.pc.inHand = [])
    (hreplies : conn.reader.replies = s.conn.reader.replies ++ conn.reader.pc.inHand) :
    Recorded ⟨conn, s.takers⟩ := by
  have hprefix : s.conn.reader.replies <+: conn.reader.replies := ⟨_, hreplies.symm⟩
  have hmono : ∀ {k id m}, s.Took k id m → Took ⟨conn, s.takers⟩ k id m :=
    fun htook ↦ htook.mono (List.prefix_refl _) hprefix
  obtain ⟨handled, hhandled, hlength⟩ := h.handled
  rw [hidle, List.append_nil] at hhandled
  refine ⟨⟨handled, ?_, hlength⟩, ?_, ?_⟩
  · dsimp only
    rw [hreplies, hhandled]
  · intro id m hreply
    rw [hclients] at hreply
    obtain ⟨k, htook⟩ := h.reply id m hreply
    exact ⟨k, hmono htook⟩
  · intro id r hstate
    rw [hclients] at hstate
    obtain ⟨k, m, htook, hr⟩ := h.returned id r hstate
    exact ⟨k, m, hmono htook, hr⟩

theorem of_call (h : s.Recorded) {status : ConnectionStatus} {id : Nat} {op : CallOp}
    {clients : Clients} (hstep : Clients.Effect status s.conn.clients id op clients) :
    Recorded ⟨{ s.conn with clients := clients }, s.takers⟩ where
  handled := h.handled
  reply := fun k m hreply ↦ h.reply k m (Clients.reply_eq_sent_of_effect hstep hreply)
  returned := by
    intro k r hstate
    by_cases heq : k = id
    · subst heq
      obtain ⟨-, m, hreply, hr⟩ := Clients.returned_of_effect hstep hstate
      obtain ⟨j, htook⟩ := h.reply k m hreply
      exact ⟨j, m, htook, hr⟩
    · dsimp only at hstate
      rw [Clients.state_of_effect_of_ne hstep heq] at hstate
      exact h.returned k r hstate

theorem deliver (h : s.Recorded) {message : EslMessage}
    (hpc : s.conn.reader.pc = .replying message) :
    Recorded ⟨{ s.conn with
      clients := s.conn.clients.deliver message
      reader := { s.conn.reader with pc := .parsing } },
      s.takers ++ [s.conn.clients.pendingReply]⟩ := by
  obtain ⟨handled, hhandled, hlength⟩ := h.handled
  rw [hpc] at hhandled
  have hreplies : s.conn.reader.replies = handled ++ [message] := hhandled
  have hmono : ∀ {k id m}, s.Took k id m → Took ⟨{ s.conn with
      clients := s.conn.clients.deliver message
      reader := { s.conn.reader with pc := .parsing } },
      s.takers ++ [s.conn.clients.pendingReply]⟩ k id m :=
    fun htook ↦ htook.mono (List.prefix_append _ _) (List.prefix_refl _)
  refine ⟨⟨handled ++ [message], ?_, ?_⟩, ?_, ?_⟩
  · exact hreplies.trans (List.append_nil _).symm
  · rw [List.length_append, List.length_append, hlength]
    rfl
  · intro id m hreply
    dsimp only at hreply
    unfold Clients.deliver at hreply
    split at hreply
    · rename_i owner howner
      by_cases heq : id = owner
      · subst heq
        rw [Clients.reply_setReply_self] at hreply
        obtain rfl : message = m := Oneshot.sent.inj hreply
        refine ⟨s.takers.length, ?_, ?_⟩
        · dsimp only
          rw [howner, List.getElem?_concat_length]
        · change s.conn.reader.replies[s.takers.length]? = some message
          rw [hreplies, ← hlength, List.getElem?_concat_length]
      · rw [Clients.calls_setReply_of_ne _ heq] at hreply
        obtain ⟨k, htook⟩ := h.reply id m hreply
        exact ⟨k, hmono htook⟩
    · obtain ⟨k, htook⟩ := h.reply id m hreply
      exact ⟨k, hmono htook⟩
  · intro id r hstate
    dsimp only at hstate
    rw [Clients.state_deliver] at hstate
    obtain ⟨k, m, htook, hr⟩ := h.returned id r hstate
    exact ⟨k, m, hmono htook, hr⟩

/-- An entry names one call, so the replies of two calls are different ones. -/
theorem completed (h : s.Recorded) : ∃ replyOf : Nat → Nat,
    (∀ id response, (s.conn.clients.calls id).state = .returned (.ok response) →
      ∃ message, s.Took (replyOf id) id message ∧ response = message.intoResponse) ∧
    ∀ id other, (s.conn.clients.calls id).state.completed = true →
      (s.conn.clients.calls other).state.completed = true →
        replyOf other = replyOf id → other = id := by
  have hreply : ∀ id, ∃ k, ∀ response,
      (s.conn.clients.calls id).state = .returned (.ok response) →
        ∃ message, s.Took k id message ∧ response = message.intoResponse := by
    intro id
    by_cases hdone : ∃ response, (s.conn.clients.calls id).state = .returned (.ok response)
    · obtain ⟨response, hstate⟩ := hdone
      obtain ⟨k, message, htook, hresponse⟩ := h.returned id response hstate
      refine ⟨k, fun response' hstate' ↦ ⟨message, htook, ?_⟩⟩
      obtain rfl : response = response' := by
        rw [hstate] at hstate'
        exact Except.ok.inj (CallState.returned.inj hstate')
      exact hresponse
    · exact ⟨0, fun response hstate ↦ absurd ⟨response, hstate⟩ hdone⟩
  choose replyOf hreplyOf using hreply
  have hentry : ∀ id, (s.conn.clients.calls id).state.completed = true →
      s.takers[replyOf id]? = some (some id) := by
    intro id hid
    cases hstate : (s.conn.clients.calls id).state with
    | returned result =>
        rw [hstate] at hid
        cases result with
        | ok response =>
            obtain ⟨message, htook, -⟩ := hreplyOf id response hstate
            exact htook.1
        | error e => cases hid
    | idle | locking | storing | writing _ | awaiting _ | timedOut _ | cancelled =>
        rw [hstate] at hid
        cases hid
  refine ⟨replyOf, hreplyOf, fun id other hid hother hsame ↦ ?_⟩
  have hfirst := hentry id hid
  have hsecond := hentry other hother
  rw [hsame, hfirst] at hsecond
  exact (Option.some.inj (Option.some.inj hsecond)).symm

end Recorded

theorem recorded_step (h : s.Recorded) (hstep : s.step X a = some t) : t.Recorded := by
  obtain ⟨conn, hconn, rfl⟩ := Option.map_eq_some_iff.mp hstep
  have hsame : ∀ {r : ReaderTask}, r.messages = s.conn.reader.messages → r.pc.inHand = [] →
      r.replies = s.conn.reader.replies ++ r.pc.inHand := by
    intro r hmessages hidle
    rw [hidle, List.append_nil, ReaderTask.replies, hmessages]
    rfl
  cases Connection.effect_of_step X hconn with
  | parsed hpc =>
      rw [taken_of_not_replying (by rw [hpc]; rfl), List.append_nil]
      exact h.of_reader rfl (by rw [hpc]; rfl) (ReaderTask.replies_parse hpc)
  | noticed hpc _ _ | noticeRefused hpc _ | dispatched hpc _ _ | itemRefused hpc _ | returned hpc
  | unwound hpc =>
      rw [taken_of_not_replying (by rw [hpc]; rfl), List.append_nil]
      exact h.of_reader rfl (by rw [hpc]; rfl) (hsame rfl rfl)
  | replied hpc =>
      have htaken : s.taken .reader = [s.conn.clients.pendingReply] := by
        unfold taken
        rw [hpc]
        rfl
      rw [htaken]
      exact h.deliver hpc
  | read hpc _ =>
      change Recorded ⟨_, s.takers ++ []⟩
      rw [List.append_nil]
      obtain ⟨hmessages, hnext⟩ := ReaderTask.read_cases (r := s.conn.reader) s.conn.now
        s.conn.livenessTimeoutMs _
      refine h.of_reader rfl (by rw [hpc]; rfl) (hsame hmessages ?_)
      rcases hnext with ⟨-, hnext⟩ | ⟨-, hnext⟩ <;> rw [hnext] <;> rfl
  | panicked hpc =>
      change Recorded ⟨_, s.takers ++ []⟩
      rw [List.append_nil]
      refine h.of_reader rfl ?_ (hsame rfl rfl)
      rcases hpc with hpc | hpc <;> rw [hpc] <;> rfl
  | called heffect =>
      change Recorded ⟨_, s.takers ++ []⟩
      rw [List.append_nil]
      exact h.of_call heffect
  | shutdown _ | livenessSet | commandTimeoutSet | received _ | streamDropped | ticked =>
      change Recorded ⟨_, s.takers ++ []⟩
      rw [List.append_nil]
      exact ⟨h.handled, h.reply, h.returned⟩

theorem recorded_init (eventQueueSize : Nat) (parser : EslParser) :
    (init eventQueueSize parser).Recorded := ⟨⟨[], rfl, rfl⟩, nofun, nofun⟩

end Sending

/-! ## Runs -/

/-- What every step keeps while no call is dropped midway and no write fails. -/
structure SendingInvariant (s : Sending) : Prop where
  exclusive : s.conn.clients.Exclusive
  slotOwned : s.conn.clients.SlotOwned
  inOrder : ∃ done part, s.conn.clients.InOrder done part
  recorded : s.Recorded

theorem slotOwned_of_connection {s t : Connection} {a : Act} (h : s.clients.SlotOwned)
    (hcancel : ∀ id, a ≠ .call id .cancel) (hfail : ∀ id e, a ≠ .call id (.fail e))
    (hstep : s.step X a = some t) : t.clients.SlotOwned := by
  refine Connection.clients_of_step Clients.SlotOwned hstep h ?_ ?_ h fun _ ↦ h
  · intro m _ _
    exact Clients.SlotOwned.of_none (Clients.pendingReply_deliver m)
  · rintro id op clients rfl heffect
    refine Clients.slotOwned_step h ?_ ?_ heffect
    · rintro rfl
      exact hcancel id rfl
    · rintro e rfl
      exact hfail id e rfl

theorem Clients.InOrder.deliver {c : Clients} {done : List Nat} {part : Bytes}
    (h : c.InOrder done part) (m : EslMessage) : (c.deliver m).InOrder done part := by
  have hsame : (c.deliver m).lockOrder = c.lockOrder ∧ (c.deliver m).wire = c.wire := by
    unfold Clients.deliver
    split <;> exact ⟨rfl, rfl⟩
  refine ⟨?_, ?_, ?_, ?_, ?_⟩
  · rw [hsame.1, writerLock_deliver]
    exact h.order
  · simp only [hsame.2, text_deliver]
    exact h.wire
  · rw [writerLock_deliver]
    exact h.free
  · intro id hid
    rw [writerLock_deliver] at hid
    rw [state_deliver, text_deliver]
    exact h.held id hid
  · intro id hid
    rw [state_deliver]
    exact h.begun id hid

theorem inOrder_of_connection {s t : Connection} {a : Act} {done : List Nat} {part : Bytes}
    (h : s.clients.InOrder done part) (hexclusive : s.clients.Exclusive)
    (hcancel : ∀ id, a ≠ .call id .cancel) (hfail : ∀ id e, a ≠ .call id (.fail e))
    (hstep : s.step X a = some t) : ∃ done' part', t.clients.InOrder done' part' := by
  refine Connection.clients_of_step (fun c ↦ ∃ done' part', c.InOrder done' part') hstep
    ⟨done, part, h⟩ (fun m _ _ ↦ ⟨done, part, h.deliver m⟩) ?_
    ⟨done, part, ⟨h.order, h.wire, h.free, h.held, h.begun⟩⟩
    fun _ ↦ ⟨done, part, ⟨h.order, h.wire, h.free, h.held, h.begun⟩⟩
  rintro id op clients rfl heffect
  refine Clients.inOrder_step h hexclusive ?_ ?_ heffect
  · rintro rfl
    exact hcancel id rfl
  · rintro e rfl
    exact hfail id e rfl

theorem sendingInvariant_step {s t : Sending} {a : Act} (h : SendingInvariant s)
    (hun : Undisturbed s a) (hstep : s.step X a = some t) : SendingInvariant t := by
  have hrecorded := Sending.recorded_step h.recorded hstep
  obtain ⟨conn, hconn, rfl⟩ := Option.map_eq_some_iff.mp hstep
  have hcancel : ∀ id, a ≠ .call id .cancel := by
    rintro id rfl
    exact hun
  have hfail : ∀ id e, a ≠ .call id (.fail e) := by
    rintro id e rfl
    exact hun
  obtain ⟨done, part, horder⟩ := h.inOrder
  exact ⟨Connection.exclusive_step X h.exclusive hconn,
    slotOwned_of_connection h.slotOwned hcancel hfail hconn,
    inOrder_of_connection horder h.exclusive hcancel hfail hconn, hrecorded⟩

theorem sendingInvariant_init (eventQueueSize : Nat) (parser : EslParser) :
    SendingInvariant (.init eventQueueSize parser) where
  exclusive := Clients.exclusive_init
  slotOwned := nofun
  inOrder := ⟨[], [], ⟨rfl, rfl, fun _ ↦ rfl, nofun, nofun⟩⟩
  recorded := Sending.recorded_init eventQueueSize parser

theorem SendingInvariant.serialised {s : Sending} (h : SendingInvariant s) : s.Serialised where
  alone := by
    intro id other hid hother
    by_contra hne
    have hfree := h.exclusive.alone (CallState.holdsWriter_of_stored hid) hne
    rw [CallState.holdsWriter_of_stored hother] at hfree
    cases hfree
  slotFree := fun id hstate ↦ h.slotOwned.pendingReply_eq_none h.exclusive hstate
  ledger := by
    obtain ⟨handled, hhandled, hlength⟩ := h.recorded.handled
    rw [hhandled, List.length_append, hlength]
    cases s.conn.reader.pc <;> rfl
  completed := h.recorded.completed
  wire := by
    obtain ⟨done, part, horder⟩ := h.inOrder
    refine ⟨done, part, horder.order, horder.wire, ?_⟩
    split
    · rename_i hlock
      exact horder.free hlock
    · rename_i id hlock
      exact (horder.held id hlock).part_of_text

/-- In every run in which no call is dropped midway and no write fails, sending is
serialised in every state. -/
theorem sending_serialised (X : Crates) {eventQueueSize : Nat} {parser : EslParser}
    {as : List Act} {t : Sending}
    (hrun : run (Sending.step X) (.init eventQueueSize parser) as = some t)
    (hmeets : Meets (Sending.step X) Undisturbed (.init eventQueueSize parser) as) :
    t.Serialised := by
  have hstep : ∀ (s : Sending) (a : Act) (t : Sending), SendingInvariant s → Undisturbed s a →
      s.step X a = some t → SendingInvariant t :=
    fun _ _ _ hs hun ↦ sendingInvariant_step hs hun
  exact (invariant_of_meets hstep (sendingInvariant_init eventQueueSize parser) hrun
    hmeets).serialised

/-- The first call gets its reply and returns, while the second one waits for the
lock; then the second one writes a part of its text. -/
def twoCalls : List Act :=
  [.call 0 (.start .byName (.api "status".toList)), .call 1 (.start .byName (.api "uptime".toList)),
    .call 0 .lock, .call 0 .store, .call 0 (.write 12), .call 0 .await, .reader,
    .read (.data (apiReply "r0")), .reader, .reader, .call 0 .resolve, .call 1 .lock,
    .call 1 .store, .call 1 (.write 5)]

theorem sending_serialised_twoCalls :
    ∃ t, run (Sending.step .percentOnly) (.init 1 EslParser.new) twoCalls = some t ∧
      t.conn.clients.wire = utf8Encode "api status\n\napi u".toList ∧ t.takers = [some 0] ∧
      t.Serialised := by
  have hrun : (run (Sending.step .percentOnly) (.init 1 EslParser.new) twoCalls).any
      (fun t ↦ t.conn.clients.wire = utf8Encode "api status\n\napi u".toList ∧
        t.takers = [some 0]) = true := by
    decide +kernel
  obtain ⟨t, ht, hwire, htakers⟩ := exists_run_of_any hrun
  have hmeets : Meets (Sending.step .percentOnly) Undisturbed (.init 1 EslParser.new) twoCalls := by
    decide +kernel
  exact ⟨t, ht, hwire, htakers, sending_serialised .percentOnly ht hmeets⟩

end FreeswitchEsl
