import FreeswitchEsl.Connection.System

/-!
# One call at a time

Only the holder of the writer lock is between locking and returning, so a call
that waits for its reply has its sender in the slot until the reader takes it.
-/

namespace FreeswitchEsl

def CallState.waiting : CallState → Bool
  | .writing _ | .awaiting _ => true
  | _ => false

theorem CallState.holdsWriter_of_waiting {s : CallState} (h : s.waiting = true) :
    s.holdsWriter = true := by
  cases s with
  | writing rest => rfl
  | awaiting timeoutMs => rfl
  | idle | locking | storing | timedOut _ | returned _ | cancelled => cases h

/-- The text of the call is not completely on the wire yet. -/
def CallState.unwritten : CallState → Bool
  | .idle | .locking | .storing => true
  | .writing rest => decide (rest ≠ [])
  | _ => false

namespace Clients

variable {c d : Clients} {status : ConnectionStatus} {id k : Nat} {op : CallOp}

/-! ## Projections -/

@[simp] theorem calls_setState_self (s : CallState) :
    (c.setState id s).calls id = { c.calls id with state := s } :=
  Function.update_self _ _ _

theorem calls_setState_of_ne (s : CallState) (h : k ≠ id) :
    (c.setState id s).calls k = c.calls k :=
  Function.update_of_ne h _ _

@[simp] theorem state_finish (r : EslResult EslResponse) :
    ((c.finish id r).calls id).state = .returned r := by
  simp [finish]

@[simp] theorem state_setReply (r : Oneshot) :
    ((c.setReply id r).calls k).state = (c.calls k).state := by
  by_cases h : k = id
  · subst h
    simp [setReply]
  · simp [setReply, Function.update_of_ne h]

@[simp] theorem reply_setReply_self (r : Oneshot) : ((c.setReply id r).calls id).reply = r := by
  simp [setReply]

theorem calls_setReply_of_ne (r : Oneshot) (h : k ≠ id) :
    (c.setReply id r).calls k = c.calls k :=
  Function.update_of_ne h _ _

@[simp] theorem state_dropSender : (c.dropSender.calls k).state = (c.calls k).state := by
  unfold dropSender
  split
  · exact state_setReply _
  · rfl

@[simp] theorem pendingReply_dropSender : c.dropSender.pendingReply = none := by
  unfold dropSender
  split
  · rfl
  · assumption

@[simp] theorem written_dropSender : c.dropSender.written = c.written := by
  unfold dropSender
  split <;> rfl

theorem lockOrder_dropSender : c.dropSender.lockOrder = c.lockOrder := by
  unfold dropSender
  split <;> rfl

theorem writerLock_dropSender : c.dropSender.writerLock = c.writerLock := by
  unfold dropSender
  split <;> rfl

theorem wire_dropSender : c.dropSender.wire = c.wire := by
  unfold dropSender
  split <;> rfl

@[simp] theorem state_deliver (m : EslMessage) :
    ((c.deliver m).calls k).state = (c.calls k).state := by
  unfold deliver
  split
  · exact state_setReply _
  · rfl

@[simp] theorem pendingReply_deliver (m : EslMessage) : (c.deliver m).pendingReply = none := by
  unfold deliver
  split
  · rfl
  · assumption

@[simp] theorem written_deliver (m : EslMessage) : (c.deliver m).written = c.written := by
  unfold deliver
  split <;> rfl

@[simp] theorem wire_deliver (m : EslMessage) : (c.deliver m).wire = c.wire := by
  unfold deliver
  split <;> rfl

@[simp] theorem writerLock_deliver (m : EslMessage) : (c.deliver m).writerLock = c.writerLock := by
  unfold deliver
  split <;> rfl

theorem state_setState_of_ne (hsame : ∀ k, (d.calls k).state = (c.calls k).state)
    (s : CallState) (h : k ≠ id) : ((d.setState id s).calls k).state = (c.calls k).state := by
  rw [calls_setState_of_ne s h]
  exact hsame k

theorem state_of_effect_of_ne (hstep : Effect status c id op d) (h : k ≠ id) :
    (d.calls k).state = (c.calls k).state := by
  cases hstep with
  | started _ _ _ =>
      dsimp only
      rw [Function.update_of_ne h]
  | stored _ =>
      refine state_setState_of_ne (fun k ↦ ?_) _ h
      rw [state_setReply, state_dropSender]
  | cleared _ => exact state_setState_of_ne (fun k ↦ state_dropSender) _ h
  | notConnected _ _ | invalid _ _ | locked _ _ | wrote _ _ _ _ | awaits _ | failed _ _
  | resolved _ _ | abandoned _ _ | expired _ _ | cancelledWaiting _ | cancelledHolding _ =>
      exact state_setState_of_ne (fun _ ↦ rfl) _ h

theorem ne_idle_of_effect (hstep : Effect status c id op d) (h : (c.calls k).state ≠ .idle) :
    (d.calls k).state ≠ .idle := by
  by_cases heq : k = id
  · subst heq
    cases hstep <;> simp [finish, setState]
  · rwa [state_of_effect_of_ne hstep heq]

theorem reply_dropSender_eq_sent {m : EslMessage}
    (h : (c.dropSender.calls k).reply = .sent m) : (c.calls k).reply = .sent m := by
  unfold dropSender at h
  split at h
  · rename_i owner _
    by_cases heq : k = owner
    · subst heq
      rw [reply_setReply_self] at h
      cases h
    · rwa [calls_setReply_of_ne _ heq] at h
  · exact h

@[simp] theorem reply_setState (s : CallState) :
    ((c.setState id s).calls k).reply = (c.calls k).reply := by
  by_cases h : k = id
  · subst h
    rw [calls_setState_self]
  · rw [calls_setState_of_ne s h]

theorem reply_eq_sent_of_effect {m : EslMessage} (hstep : Effect status c id op d)
    (h : (d.calls k).reply = .sent m) : (c.calls k).reply = .sent m := by
  cases hstep with
  | started _ _ _ =>
      by_cases heq : k = id
      · subst heq
        dsimp only at h
        rw [Function.update_self] at h
        cases h
      · dsimp only at h
        rwa [Function.update_of_ne heq] at h
  | stored _ =>
      dsimp only at h
      rw [reply_setState] at h
      by_cases heq : k = id
      · subst heq
        rw [reply_setReply_self] at h
        cases h
      · rw [calls_setReply_of_ne _ heq] at h
        exact reply_dropSender_eq_sent h
  | cleared _ =>
      apply reply_dropSender_eq_sent
      rwa [finish, reply_setState] at h
  | notConnected _ _ | invalid _ _ | locked _ _ | wrote _ _ _ _ | awaits _ | failed _ _
  | resolved _ _ | abandoned _ _ | expired _ _ | cancelledWaiting _ | cancelledHolding _ =>
      simpa [finish] using h

/-! ## The invariant -/

/-- The lock and the slot belong to the call that uses them. -/
structure Exclusive (c : Clients) : Prop where
  holder : ∀ id, (c.calls id).state.holdsWriter = true → c.writerLock = some id
  slot : ∀ id, (c.calls id).state.waiting = true → (c.calls id).reply = .pending →
    c.pendingReply = some id

namespace Exclusive

theorem alone (h : c.Exclusive) (hid : (c.calls id).state.holdsWriter = true) (hk : k ≠ id) :
    (c.calls k).state.holdsWriter = false := by
  by_contra hholds
  have hlock := h.holder k (by simpa using hholds)
  rw [h.holder id hid] at hlock
  exact hk (Option.some.inj hlock).symm

theorem of_alone (id : Nat) (hother : ∀ k, k ≠ id → (d.calls k).state.holdsWriter = false)
    (hholder : (d.calls id).state.holdsWriter = true → d.writerLock = some id)
    (hslot : (d.calls id).state.waiting = true → (d.calls id).reply = .pending →
      d.pendingReply = some id) : d.Exclusive where
  holder := by
    intro k hk
    by_cases heq : k = id
    · subst heq
      exact hholder hk
    · rw [hother k heq] at hk
      cases hk
  slot := by
    intro k hk hreply
    by_cases heq : k = id
    · subst heq
      exact hslot hk hreply
    · have hholds := CallState.holdsWriter_of_waiting hk
      rw [hother k heq] at hholds
      cases hholds

theorem of_release (h : c.Exclusive) (hid : (c.calls id).state.holdsWriter = true)
    (hother : ∀ k, k ≠ id → (d.calls k).state = (c.calls k).state)
    (hgone : (d.calls id).state.holdsWriter = false) : d.Exclusive := by
  have hwaiting : (d.calls id).state.waiting ≠ true := by
    intro hwait
    rw [CallState.holdsWriter_of_waiting hwait] at hgone
    cases hgone
  apply of_alone id
  · intro k hk
    rw [hother k hk]
    exact h.alone hid hk
  · intro hholds
    rw [hgone] at hholds
    cases hholds
  · intro hwait
    exact absurd hwait hwaiting

theorem of_move (h : c.Exclusive) {call : Call} (hcalls : d.calls = Function.update c.calls id call)
    (hlock : d.writerLock = c.writerLock) (hslot : d.pendingReply = c.pendingReply)
    (hholder : call.state.holdsWriter = true → (c.calls id).state.holdsWriter = true)
    (hwaiting : call.state.waiting = true →
      (c.calls id).state.waiting = true ∧ call.reply = (c.calls id).reply) : d.Exclusive where
  holder := by
    intro k hk
    rw [hlock]
    apply h.holder k
    by_cases heq : k = id
    · subst heq
      apply hholder
      rwa [hcalls, Function.update_self] at hk
    · rwa [hcalls, Function.update_of_ne heq] at hk
  slot := by
    intro k hk hreply
    rw [hslot]
    by_cases heq : k = id
    · subst heq
      rw [hcalls, Function.update_self] at hk hreply
      obtain ⟨hwait, hsame⟩ := hwaiting hk
      exact h.slot k hwait (hsame ▸ hreply)
    · rw [hcalls, Function.update_of_ne heq] at hk hreply
      exact h.slot k hk hreply

theorem deliver (h : c.Exclusive) (m : EslMessage) : (c.deliver m).Exclusive where
  holder := by
    intro k hk
    rw [writerLock_deliver]
    exact h.holder k (by simpa using hk)
  slot := by
    intro k hk hreply
    have hwait : (c.calls k).state.waiting = true := by simpa using hk
    unfold Clients.deliver at hreply ⊢
    split at hreply
    · rename_i owner howner
      by_cases heq : k = owner
      · subst heq
        rw [reply_setReply_self] at hreply
        cases hreply
      · rw [calls_setReply_of_ne _ heq] at hreply
        have hslot := h.slot k hwait hreply
        rw [howner] at hslot
        exact absurd (Option.some.inj hslot).symm heq
    · exact h.slot k hwait hreply

end Exclusive

theorem exclusive_init : Clients.init.Exclusive where
  holder := by
    intro id h
    cases h
  slot := by
    intro id h
    cases h

/-- Every step of a call keeps the lock and the slot its own. -/
theorem exclusive_step (h : c.Exclusive) (hstep : Effect status c id op d) : d.Exclusive := by
  have hframe : ∀ k, k ≠ id → (d.calls k).state = (c.calls k).state :=
    fun k hk ↦ state_of_effect_of_ne hstep hk
  cases hstep with
  | notConnected _ _ => exact h.of_move rfl rfl rfl nofun nofun
  | invalid _ _ => exact h.of_move rfl rfl rfl nofun nofun
  | started _ _ _ => exact h.of_move rfl rfl rfl nofun nofun
  | locked _ hlock =>
      refine Exclusive.of_alone id ?_ (fun _ ↦ rfl) ?_
      · intro k hk
        rw [hframe k hk]
        by_contra hholds
        have hholder := h.holder k (by simpa using hholds)
        rw [hlock] at hholder
        cases hholder
      · intro hwait
        dsimp only at hwait
        rw [calls_setState_self] at hwait
        cases hwait
  | stored hstate =>
      have hholds : (c.calls id).state.holdsWriter = true := by
        rw [hstate]
        rfl
      refine Exclusive.of_alone id ?_ (fun _ ↦ ?_) (fun _ _ ↦ rfl)
      · intro k hk
        rw [hframe k hk]
        exact h.alone hholds hk
      · have hlock := h.holder id hholds
        unfold dropSender
        split <;> exact hlock
  | wrote hstate _ _ _ =>
      refine h.of_move rfl rfl rfl ?_ ?_
      all_goals
        intro _
        rw [hstate]
      · rfl
      · exact ⟨rfl, rfl⟩
  | awaits hstate =>
      refine h.of_move rfl rfl rfl ?_ ?_
      all_goals
        intro _
        rw [hstate]
      · rfl
      · exact ⟨rfl, rfl⟩
  | expired hstate _ =>
      refine h.of_move rfl rfl rfl ?_ nofun
      intro _
      rw [hstate]
      rfl
  | cancelledWaiting _ => exact h.of_move rfl rfl rfl nofun nofun
  | failed hstate _ | resolved hstate _ | abandoned hstate _ | cleared hstate =>
      refine h.of_release ?_ hframe ?_
      · rw [hstate]
        rfl
      · rw [state_finish]
        rfl
  | cancelledHolding hholds =>
      apply h.of_release hholds hframe
      dsimp only
      rw [calls_setState_self]
      rfl

/-! ## Written commands -/

/-- A command is written once, and the call does not come back to writing it. -/
structure WrittenOnce (c : Clients) : Prop where
  nodup : c.written.Nodup
  written : ∀ id ∈ c.written, (c.calls id).state.unwritten = false

theorem written_prefix_of_effect (hstep : Effect status c id op d) : c.written <+: d.written := by
  cases hstep with
  | wrote _ _ _ _ =>
      dsimp only
      split
      · exact List.prefix_append _ _
      · exact List.prefix_refl _
  | stored _ | cleared _ =>
      change c.written <+: c.dropSender.written
      rw [written_dropSender]
  | notConnected _ _ | invalid _ _ | started _ _ _ | locked _ _ | awaits _ | failed _ _
  | resolved _ _ | abandoned _ _ | expired _ _ | cancelledWaiting _ | cancelledHolding _ =>
      exact List.prefix_refl _

theorem writtenOnce_step (h : c.WrittenOnce) (hstep : Effect status c id op d) :
    d.WrittenOnce := by
  have hframe : ∀ k, k ≠ id → (d.calls k).state = (c.calls k).state :=
    fun k hk ↦ state_of_effect_of_ne hstep hk
  -- a call that is not the next one to be written
  have hkeeps : d.written = c.written →
      ((d.calls id).state.unwritten = true → (c.calls id).state.unwritten = true) →
      d.WrittenOnce := by
    intro hwritten hback
    refine ⟨hwritten ▸ h.nodup, fun k hk ↦ ?_⟩
    have hold := h.written k (hwritten ▸ hk)
    by_cases heq : k = id
    · subst heq
      by_contra hun
      rw [hback (by simpa using hun)] at hold
      cases hold
    · rwa [hframe k heq]
  cases hstep with
  | notConnected hstate _ | invalid hstate _ | started hstate _ _ | locked hstate _
  | stored hstate =>
      apply hkeeps
      · first | rfl | exact written_dropSender
      · intro _
        rw [hstate]
        rfl
  | @wrote rest count hstate hpos hle _ =>
      have hunwritten : (c.calls id).state.unwritten = true := by
        rw [hstate]
        apply decide_eq_true
        rintro rfl
        simp at hle
        omega
      by_cases hcount : count = rest.length
      · have hnew : id ∉ c.written := by
          intro hmem
          rw [h.written id hmem] at hunwritten
          cases hunwritten
        refine ⟨?_, fun k hk ↦ ?_⟩
        · dsimp only
          rw [if_pos hcount]
          exact List.nodup_append_comm.mp (List.nodup_cons.mpr ⟨hnew, h.nodup⟩)
        · dsimp only at hk ⊢
          rw [if_pos hcount] at hk
          by_cases heq : k = id
          · subst heq
            rw [calls_setState_self, hcount, List.drop_length]
            rfl
          · have hold : k ∈ c.written := by simpa [heq] using hk
            rw [calls_setState_of_ne _ heq]
            exact h.written k hold
      · exact hkeeps (if_neg hcount) fun _ ↦ hunwritten
  | awaits _ | failed _ _ | resolved _ _ | abandoned _ _ | expired _ _ | cleared _
  | cancelledWaiting _ | cancelledHolding _ =>
      apply hkeeps
      · first | rfl | exact written_dropSender
      · intro hun
        simp [finish, setState, CallState.unwritten] at hun

theorem WrittenOnce.deliver (h : c.WrittenOnce) (m : EslMessage) : (c.deliver m).WrittenOnce where
  nodup := by
    rw [written_deliver]
    exact h.nodup
  written := by
    intro id hid
    rw [written_deliver] at hid
    rw [state_deliver]
    exact h.written id hid

end Clients

theorem Connection.exclusive_step (X : Crates) {s t : Connection} {a : Act}
    (h : s.clients.Exclusive) (hstep : s.step X a = some t) : t.clients.Exclusive := by
  refine clients_of_step Clients.Exclusive hstep h (fun m _ _ ↦ h.deliver m) ?_ ⟨h.holder, h.slot⟩
    fun _ ↦ ⟨h.holder, h.slot⟩
  intro id op clients _ heffect
  exact Clients.exclusive_step h heffect

theorem Connection.writtenOnce_step (X : Crates) {s t : Connection} {a : Act}
    (h : s.clients.WrittenOnce) (hstep : s.step X a = some t) : t.clients.WrittenOnce := by
  refine clients_of_step Clients.WrittenOnce hstep h (fun m _ _ ↦ h.deliver m) ?_
    ⟨h.nodup, h.written⟩ fun _ ↦ ⟨h.nodup, h.written⟩
  intro id op clients _ heffect
  exact Clients.writtenOnce_step h heffect

end FreeswitchEsl
