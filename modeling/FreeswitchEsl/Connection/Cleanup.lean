import FreeswitchEsl.Connection.Exclusion
import FreeswitchEsl.Percent

/-!
# What a returned call leaves behind

A call gives up the writer lock on every way out.  It leaves its sender in the
slot on one of them: the early return on a failed write, unless the reader has
taken the sender before.
-/

namespace FreeswitchEsl

open Text Transition

/-- The calls that return in a step have given up the lock, and their senders are not
in the slot.  A call that returns without having begun has written nothing, and the
slot is as it was. -/
def Clients.CleanReturn (c d : Clients) : Prop :=
  ∀ id result, (c.calls id).state ≠ .returned result → (d.calls id).state = .returned result →
    d.writerLock ≠ some id ∧ d.pendingReply ≠ some id ∧
      ((c.calls id).state = .idle → d.wire = c.wire ∧ d.pendingReply = c.pendingReply)

/-- A write fails while the slot has the sender of the call. -/
def LeavesSender (s : Connection) (a : Act) : Prop :=
  match a with
  | .call id (.fail _) => s.clients.pendingReply = some id
  | _ => False

instance (s : Connection) : (a : Act) → Decidable (LeavesSender s a)
  | .call id (.fail _) => inferInstanceAs (Decidable (s.clients.pendingReply = some id))
  | .call _ (.start _ _) | .call _ .lock | .call _ .store | .call _ (.write _) | .call _ .await
  | .call _ .resolve | .call _ .expire | .call _ .clear | .call _ .cancel | .reader | .read _
  | .panic | .disconnect | .setLivenessTimeout _ | .setCommandTimeout _ | .recv | .dropStream
  | .tick _ => .isFalse id

namespace Clients

variable {c d : Clients} {status : ConnectionStatus} {id k : Nat} {op : CallOp}

/-- The lock and the slot are with calls that have begun, and the sender in the slot
has not been used. -/
structure Begun (c : Clients) : Prop where
  holder : ∀ id, c.writerLock = some id → (c.calls id).state ≠ .idle
  slot : ∀ id, c.pendingReply = some id →
    (c.calls id).state ≠ .idle ∧ (c.calls id).reply = .pending

theorem begun_init : Clients.init.Begun where
  holder := by
    intro id h
    cases h
  slot := by
    intro id h
    cases h

theorem Begun.deliver (h : c.Begun) (m : EslMessage) : (c.deliver m).Begun where
  holder := by
    intro id hid
    rw [writerLock_deliver] at hid
    rw [state_deliver]
    exact h.holder id hid
  slot := by
    intro id hid
    rw [pendingReply_deliver] at hid
    cases hid

theorem begun_step (h : c.Begun) (hstep : Effect status c id op d) : d.Begun := by
  have hbegun : ∀ k, (c.calls k).state ≠ .idle → (d.calls k).state ≠ .idle :=
    fun _ hk ↦ ne_idle_of_effect hstep hk
  constructor
  · intro k hk
    cases hstep with
    | locked _ _ =>
        obtain rfl : id = k := Option.some.inj hk
        dsimp only
        rw [calls_setState_self]
        nofun
    | stored _ =>
        refine hbegun k (h.holder k ?_)
        rwa [← c.writerLock_dropSender]
    | failed _ _ | resolved _ _ | abandoned _ _ | cleared _ | cancelledHolding _ => cases hk
    | notConnected _ _ | invalid _ _ | started _ _ _ | wrote _ _ _ _ | awaits _ | expired _ _
    | cancelledWaiting _ => exact hbegun k (h.holder k hk)
  · intro k hk
    cases hstep with
    | stored _ =>
        obtain rfl : id = k := Option.some.inj hk
        dsimp only
        rw [calls_setState_self, reply_setReply_self]
        exact ⟨nofun, rfl⟩
    | cleared _ =>
        have hempty : c.dropSender.pendingReply = some k := hk
        rw [pendingReply_dropSender] at hempty
        cases hempty
    | started hstate _ _ =>
        obtain ⟨hidle, hreply⟩ := h.slot k hk
        have hne : k ≠ id := by
          rintro rfl
          exact hidle hstate
        refine ⟨hbegun k hidle, ?_⟩
        dsimp only
        rwa [Function.update_of_ne hne]
    | notConnected _ _ | invalid _ _ | locked _ _ | wrote _ _ _ _ | awaits _ | failed _ _
    | resolved _ _ | abandoned _ _ | expired _ _ | cancelledWaiting _ | cancelledHolding _ =>
        obtain ⟨hidle, hreply⟩ := h.slot k hk
        exact ⟨hbegun k hidle, (reply_setState _).trans hreply⟩

theorem CleanReturn.of_state_eq (h : ∀ k, (d.calls k).state = (c.calls k).state) :
    c.CleanReturn d := by
  intro k result hbefore hafter
  rw [h k] at hafter
  exact absurd hafter hbefore

/-- Of all the ways out, only the early return on a failed write leaves the slot alone. -/
theorem cleanReturn_iff_of_effect (h : c.Begun) (hstep : Effect status c id op d) :
    c.CleanReturn d ↔ ∀ e, op = .fail e → c.pendingReply ≠ some id := by
  constructor
  · rintro hclean e rfl
    cases hstep with
    | failed hstate _ =>
        have hbefore : (c.calls id).state ≠ .returned (.error (.io e)) := by
          rw [hstate]
          nofun
        exact (hclean id _ hbefore (state_finish _)).2.1
  · intro hfail k result hbefore hafter
    obtain rfl : k = id := by
      by_contra hne
      rw [state_of_effect_of_ne hstep hne] at hafter
      exact hbefore hafter
    cases hstep with
    | notConnected hstate _ | invalid hstate _ =>
        refine ⟨fun hlock ↦ h.holder k hlock hstate, fun hslot ↦ (h.slot k hslot).1 hstate, ?_⟩
        exact fun _ ↦ ⟨rfl, rfl⟩
    | failed hstate _ =>
        refine ⟨nofun, hfail _ rfl, fun hidle ↦ ?_⟩
        rw [hstate] at hidle
        cases hidle
    | resolved hstate hreply | abandoned hstate hreply =>
        refine ⟨nofun, fun hslot ↦ ?_, fun hidle ↦ ?_⟩
        · have hpending := (h.slot k hslot).2
          rw [hreply] at hpending
          cases hpending
        · rw [hstate] at hidle
          cases hidle
    | cleared hstate =>
        refine ⟨nofun, fun hslot ↦ ?_, fun hidle ↦ ?_⟩
        · have hempty : c.dropSender.pendingReply = some k := hslot
          rw [pendingReply_dropSender] at hempty
          cases hempty
        · rw [hstate] at hidle
          cases hidle
    | started _ _ _ =>
        dsimp only at hafter
        rw [Function.update_self] at hafter
        cases hafter
    | locked _ _ | stored _ | wrote _ _ _ _ | cancelledHolding _ =>
        dsimp only at hafter
        rw [calls_setState_self] at hafter
        cases hafter
    | awaits _ | expired _ _ | cancelledWaiting _ =>
        rw [calls_setState_self] at hafter
        cases hafter

end Clients

theorem Connection.begun_step (X : Crates) {s t : Connection} {a : Act}
    (h : s.clients.Begun) (hstep : s.step X a = some t) : t.clients.Begun := by
  refine clients_of_step Clients.Begun hstep h (fun m _ _ ↦ h.deliver m) ?_ ⟨h.holder, h.slot⟩
    fun _ ↦ ⟨h.holder, h.slot⟩
  intro id op clients _ heffect
  exact Clients.begun_step h heffect

theorem leavesSender_call {s : Connection} {id : Nat} {op : CallOp} :
    LeavesSender s (.call id op) ↔ ∃ e, op = .fail e ∧ s.clients.pendingReply = some id := by
  constructor
  · intro h
    cases op with
    | fail e => exact ⟨e, rfl, h⟩
    | start _ _ | lock | store | write _ | await | resolve | expire | clear | cancel =>
        exact h.elim
  · rintro ⟨e, rfl, hslot⟩
    exact hslot

theorem cleanReturn_iff_of_step (X : Crates) {s t : Connection} {a : Act}
    (h : s.clients.Begun) (hstep : s.step X a = some t) :
    s.clients.CleanReturn t.clients ↔ ¬ LeavesSender s a := by
  cases Connection.effect_of_step X hstep with
  | called heffect =>
      rw [Clients.cleanReturn_iff_of_effect h heffect, leavesSender_call]
      simp only [not_exists, not_and, ne_eq]
  | replied _ => exact iff_of_true (.of_state_eq fun _ ↦ Clients.state_deliver _) id
  | parsed _ | noticed _ _ _ | noticeRefused _ _ | dispatched _ _ _ | itemRefused _ _ | returned _
  | unwound _ | read _ _ | panicked _ | shutdown _ | livenessSet | commandTimeoutSet | received _
  | streamDropped | ticked => exact iff_of_true (.of_state_eq fun _ ↦ rfl) id

/-- In a run every call that returns leaves the lock and the slot clean, if and only if
no write fails while the slot has the sender of the call. -/
theorem sendCommand_cleansUp_iff (X : Crates) {eventQueueSize : Nat} {parser : EslParser}
    {as : List Act} {t : Connection}
    (hrun : run (Connection.step X) (.init eventQueueSize parser) as = some t) :
    Meets (Connection.step X)
        (fun s a ↦ ∀ u, s.step X a = some u → s.clients.CleanReturn u.clients)
        (.init eventQueueSize parser) as ↔
      Meets (Connection.step X) (fun s a ↦ ¬ LeavesSender s a)
        (.init eventQueueSize parser) as := by
  have hstep : ∀ (s : Connection) (a : Act) (t : Connection), s.clients.Begun →
      s.step X a = some t → t.clients.Begun :=
    fun _ _ _ hs ↦ Connection.begun_step X hs
  refine meets_iff_of_invariant hstep (fun s a t hs hst ↦ ?_) Clients.begun_init hrun
  simp only [hst, Option.some.injEq, forall_eq']
  exact cleanReturn_iff_of_step X hs hst

/-- One call is refused by the validation, one is answered, and the write of the third
one fails when the reader has already taken its sender. -/
def cleanReturns : List Act :=
  [.call 0 (.start .byName (.api "a\nb".toList)), .call 1 (.start .byName (.api "status".toList)),
    .call 1 .lock, .call 1 .store, .call 1 (.write 12), .call 1 .await, .reader,
    .read (.data (utf8Encode
      "Content-Type: command/reply\n\nContent-Type: command/reply\n\n".toList)),
    .reader, .reader, .call 1 .resolve, .call 2 (.start .byName (.api "status".toList)),
    .call 2 .lock, .call 2 .store, .reader, .reader, .call 2 (.fail "broken pipe".toList)]

theorem sendCommand_cleansUp_iff_cleanReturns :
    ∃ t, run (Connection.step .percentOnly) (.init 1 EslParser.new) cleanReturns = some t ∧
      Meets (Connection.step .percentOnly)
        (fun s a ↦ ∀ u, s.step .percentOnly a = some u → s.clients.CleanReturn u.clients)
        (.init 1 EslParser.new) cleanReturns := by
  have hrun : (run (Connection.step .percentOnly) (.init 1 EslParser.new) cleanReturns).any
      (fun _ ↦ True) = true := by
    decide +kernel
  obtain ⟨t, ht, -⟩ := exists_run_of_any hrun
  have hmeets : Meets (Connection.step .percentOnly) (fun s a ↦ ¬ LeavesSender s a)
      (.init 1 EslParser.new) cleanReturns := by
    decide +kernel
  exact ⟨t, ht, (sendCommand_cleansUp_iff .percentOnly ht).mpr hmeets⟩

/-- The write half is shut down, so the write fails with the sender in the slot. -/
def shutDownThenWrite : List Act :=
  [.disconnect, .call 0 (.start .byName (.api "status".toList)), .call 0 .lock, .call 0 .store,
    .call 0 (.fail "broken pipe".toList)]

theorem not_cleanReturn_shutDownThenWrite :
    ¬ ∀ (X : Crates) (eventQueueSize : Nat) (parser : EslParser) (as : List Act) (t : Connection),
      run (Connection.step X) (.init eventQueueSize parser) as = some t →
        Meets (Connection.step X)
          (fun s a ↦ ∀ u, s.step X a = some u → s.clients.CleanReturn u.clients)
          (.init eventQueueSize parser) as := by
  intro h
  have hrun : (run (Connection.step .percentOnly) (.init 1 EslParser.new) shutDownThenWrite).any
      (fun _ ↦ True) = true := by
    decide +kernel
  obtain ⟨t, ht, -⟩ := exists_run_of_any hrun
  have hfirst : (run (Connection.step .percentOnly) (.init 1 EslParser.new)
      (shutDownThenWrite.take 4)).any (fun s ↦
        (s.clients.calls 0).state ≠ .returned (.error (.io "broken pipe".toList)) ∧
        (s.step .percentOnly (.call 0 (.fail "broken pipe".toList))).any fun u ↦
          (u.clients.calls 0).state = .returned (.error (.io "broken pipe".toList)) ∧
            u.clients.pendingReply = some 0) = true := by
    decide +kernel
  obtain ⟨s, hs, hbefore, hnext⟩ := exists_run_of_any hfirst
  obtain ⟨u, hu, hafter⟩ := (Option.any_eq_true _ _).mp hnext
  obtain ⟨hstate, hslot⟩ := of_decide_eq_true hafter
  -- the last step of the run is the one from `s` to `u`
  have hmeets : Meets (Connection.step .percentOnly)
      (fun s a ↦ ∀ u, s.step .percentOnly a = some u → s.clients.CleanReturn u.clients)
      (.init 1 EslParser.new)
      (shutDownThenWrite.take 4 ++ [.call 0 (.fail "broken pipe".toList)]) :=
    h .percentOnly 1 EslParser.new shutDownThenWrite t ht
  have hclean := (hmeets.of_append.2 s hs).1 u hu
  exact (hclean 0 _ hbefore hstate).2.1 hslot

end FreeswitchEsl
