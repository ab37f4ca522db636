import FreeswitchEsl.Connection.Sending
import FreeswitchEsl.Connection.Shutdown

/-!
# Every call comes to an end

A call has only so many steps to take, and whoever waits can go on: the holder of the
writer lock depends on nobody but the network and its timer, and gives the lock up.
-/

namespace FreeswitchEsl

open Text Transition

/-- How many steps the call can still take, once it has begun. -/
def Call.stepsLeft (call : Call) : Nat :=
  match call.state with
  | .idle => call.text.length + 6
  | .locking => call.text.length + 5
  | .storing => call.text.length + 4
  | .writing rest => rest.length + 3
  | .awaiting _ => 2
  | .timedOut _ => 1
  | .returned _ | .cancelled => 0

def Act.isStepOf (id : Nat) : Act → Bool
  | .call k _ => k == id
  | _ => false

/-- The call has begun and has not come to its end. -/
def CallState.underway : CallState → Bool
  | .idle | .returned _ | .cancelled => false
  | _ => true

/-- A step that a call takes of itself to come to its end: none that begins or drops a
call, nothing of the reader, of the server or of the application. -/
def Act.finishes : Act → Bool
  | .call _ (.start _ _) | .call _ .cancel => false
  | .call _ _ => true
  | _ => false

namespace Clients

variable {c d : Clients} {status : ConnectionStatus} {id k : Nat} {op : CallOp}

/-! ## Steps are counted -/

theorem stepsLeft_of_effect (hstep : Effect status c id op d) (h : (c.calls id).state ≠ .idle) :
    (d.calls id).stepsLeft < (c.calls id).stepsLeft := by
  cases hstep with
  | notConnected hstate _ | invalid hstate _ | started hstate _ _ => exact absurd hstate h
  | locked hstate _ => simp [Call.stepsLeft, hstate]
  | stored hstate => simp [Call.stepsLeft, hstate]
  | @wrote rest count hstate hpos hle _ =>
      simp only [Call.stepsLeft, hstate, calls_setState_self, List.length_drop]
      omega
  | awaits hstate => simp [Call.stepsLeft, hstate]
  | failed hstate _ => simp [Call.stepsLeft, hstate]
  | resolved hstate _ | abandoned hstate _ => simp [Call.stepsLeft, hstate]
  | expired hstate _ => simp [Call.stepsLeft, hstate]
  | cleared hstate => simp [Call.stepsLeft, hstate]
  | cancelledWaiting hstate => simp [Call.stepsLeft, hstate]
  | cancelledHolding hholds =>
      dsimp only
      rw [calls_setState_self]
      change 0 < (c.calls id).stepsLeft
      unfold Call.stepsLeft
      cases hstate : (c.calls id).state with
      | storing | writing rest | awaiting timeoutMs | timedOut timeoutMs => dsimp only; omega
      | idle | locking | returned result | cancelled =>
          rw [hstate] at hholds
          cases hholds

/-- Whatever its first step is, the call has begun behind it. -/
theorem begun_of_effect (hstep : Effect status c id op d) : (d.calls id).state ≠ .idle := by
  cases hstep <;> simp [finish, setState]

theorem stepsLeft_congr (hstate : (d.calls k).state = (c.calls k).state)
    (htext : (d.calls k).text = (c.calls k).text) :
    (d.calls k).stepsLeft = (c.calls k).stepsLeft := by
  unfold Call.stepsLeft
  rw [hstate, htext]

/-- What a first step leaves of the steps that the text allows. -/
theorem stepsLeft_of_begin (hstep : Effect status c id op d) (h : (c.calls id).state = .idle) :
    (d.calls id).stepsLeft + 1 ≤ (d.calls id).text.length + 6 := by
  cases hstep with
  | notConnected _ _ | invalid _ _ => simp [Call.stepsLeft]
  | started _ _ _ =>
      dsimp only
      rw [Function.update_self]
      simp [Call.stepsLeft]
  | locked hstate _ | stored hstate | wrote hstate _ _ _ | awaits hstate | failed hstate _
  | resolved hstate _ | abandoned hstate _ | expired hstate _ | cleared hstate
  | cancelledWaiting hstate =>
      rw [h] at hstate
      cases hstate
  | cancelledHolding hholds =>
      rw [h] at hholds
      cases hholds

end Clients

namespace Connection

variable {X : Crates} {s t : Connection} {a : Act} {id k : Nat}

/-- What a step that is not one of the call leaves of it. -/
theorem call_of_step_of_ne (hstep : s.step X a = some t) (ha : a.isStepOf id = false) :
    (t.clients.calls id).state = (s.clients.calls id).state ∧
      ((s.clients.calls id).state ≠ .idle →
        (t.clients.calls id).text = (s.clients.calls id).text) := by
  refine clients_of_step
    (fun c ↦ (c.calls id).state = (s.clients.calls id).state ∧
      ((s.clients.calls id).state ≠ .idle → (c.calls id).text = (s.clients.calls id).text))
    hstep ⟨rfl, fun _ ↦ rfl⟩ ?_ ?_ ⟨rfl, fun _ ↦ rfl⟩ fun _ ↦ ⟨rfl, fun _ ↦ rfl⟩
  · intro message _ _
    exact ⟨Clients.state_deliver message, fun _ ↦ Clients.text_deliver message⟩
  · rintro k op clients rfl heffect
    have hne : id ≠ k := by
      rintro rfl
      simp [Act.isStepOf] at ha
    exact ⟨Clients.state_of_effect_of_ne heffect hne, Clients.text_of_effect heffect⟩

theorem effect_of_isStepOf (hstep : s.step X a = some t) (ha : a.isStepOf id = true) :
    ∃ op, Clients.Effect s.reader.status s.clients id op t.clients := by
  cases a with
  | call k op =>
      obtain rfl : k = id := by simpa [Act.isStepOf] using ha
      obtain ⟨clients, hclients, rfl⟩ := Option.map_eq_some_iff.mp hstep
      exact ⟨op, Clients.effect_of_step hclients⟩
  | reader | read _ | panic | disconnect | setLivenessTimeout _ | setCommandTimeout _ | recv
  | dropStream | tick _ => cases ha

/-- A call that has begun uses up the steps it has left. -/
theorem steps_of_begun {as : List Act} (hrun : run (Connection.step X) s as = some t)
    (hbegun : (s.clients.calls id).state ≠ .idle) :
    as.countP (Act.isStepOf id) + (t.clients.calls id).stepsLeft ≤
        (s.clients.calls id).stepsLeft ∧
      (t.clients.calls id).text = (s.clients.calls id).text := by
  induction as generalizing s with
  | nil =>
      obtain rfl : s = t := Option.some.inj hrun
      simp
  | cons a as ih =>
      obtain ⟨v, hv, hrest⟩ := run_cons_eq_some.mp hrun
      by_cases ha : a.isStepOf id = true
      · obtain ⟨op, heffect⟩ := effect_of_isStepOf hv ha
        have hless := Clients.stepsLeft_of_effect heffect hbegun
        obtain ⟨hcount, htext⟩ := ih hrest (Clients.ne_idle_of_effect heffect hbegun)
        rw [List.countP_cons_of_pos ha]
        exact ⟨by omega, htext.trans (Clients.text_of_effect heffect hbegun)⟩
      · obtain ⟨hstate, htext⟩ := call_of_step_of_ne hv (by simpa using ha)
        have hsame := Clients.stepsLeft_congr hstate (htext hbegun)
        obtain ⟨hcount, htext'⟩ := ih hrest (by rw [hstate]; exact hbegun)
        rw [List.countP_cons_of_neg ha]
        exact ⟨by omega, htext'.trans (htext hbegun)⟩

theorem steps_of_idle {as : List Act} (hrun : run (Connection.step X) s as = some t)
    (hidle : (s.clients.calls id).state = .idle) :
    as.countP (Act.isStepOf id) ≤ (t.clients.calls id).text.length + 6 := by
  induction as generalizing s with
  | nil => simp
  | cons a as ih =>
      obtain ⟨v, hv, hrest⟩ := run_cons_eq_some.mp hrun
      by_cases ha : a.isStepOf id = true
      · obtain ⟨op, heffect⟩ := effect_of_isStepOf hv ha
        have hbegin := Clients.stepsLeft_of_begin heffect hidle
        obtain ⟨hcount, htext⟩ := steps_of_begun hrest (Clients.begun_of_effect heffect)
        rw [List.countP_cons_of_pos ha, htext]
        omega
      · obtain ⟨hstate, -⟩ := call_of_step_of_ne hv (by simpa using ha)
        rw [List.countP_cons_of_neg ha]
        exact ih hrest (hstate.trans hidle)

end Connection

/-- In no run does a call take more steps than its text has bytes, and six more: whatever
the clients, the server and the reader do, it does not go round in circles. -/
theorem sendCommand_steps_le (X : Crates) {eventQueueSize : Nat} {parser : EslParser}
    {as : List Act} {t : Connection}
    (hrun : run (Connection.step X) (.init eventQueueSize parser) as = some t) (id : Nat) :
    as.countP (Act.isStepOf id) ≤ (t.clients.calls id).text.length + 6 :=
  Connection.steps_of_idle hrun rfl

theorem sendCommand_steps_le_twoCalls :
    ∃ t, run (Connection.step .percentOnly) (.init 1 EslParser.new) twoCalls = some t ∧
      twoCalls.countP (Act.isStepOf 0) ≤ (t.clients.calls 0).text.length + 6 := by
  have hrun : (run (Connection.step .percentOnly) (.init 1 EslParser.new) twoCalls).any
      (fun _ ↦ True) = true := by
    decide +kernel
  obtain ⟨t, ht, -⟩ := exists_run_of_any hrun
  exact ⟨t, ht, sendCommand_steps_le .percentOnly ht 0⟩

/-! ## Nobody is stuck -/

namespace Clients

variable {c d : Clients} {status : ConnectionStatus} {id k : Nat} {op : CallOp}

/-- The lock is with a call that will give it back. -/
def LockHeld (c : Clients) : Prop :=
  ∀ id, c.writerLock = some id → (c.calls id).state.holdsWriter = true

theorem lockHeld_init : Clients.init.LockHeld := by
  intro id h
  cases h

theorem LockHeld.deliver (h : c.LockHeld) (m : EslMessage) : (c.deliver m).LockHeld := by
  intro id hid
  rw [writerLock_deliver] at hid
  rw [state_deliver]
  exact h id hid

theorem lockHeld_step (h : c.LockHeld) (hstep : Effect status c id op d) : d.LockHeld := by
  intro k hk
  by_cases heq : k = id
  · subst heq
    cases hstep with
    | locked _ _ | stored _ | wrote _ _ _ _ | awaits _ | expired _ _ => simp [CallState.holdsWriter]
    | failed _ _ | resolved _ _ | abandoned _ _ | cleared _ | cancelledHolding _ => cases hk
    | notConnected hstate _ | invalid hstate _ | started hstate _ _ | cancelledWaiting hstate =>
        have hholds := h k hk
        rw [hstate] at hholds
        cases hholds
  · rw [state_of_effect_of_ne hstep heq]
    cases hstep with
    | locked _ _ => exact absurd (Option.some.inj hk).symm heq
    | stored _ =>
        apply h k
        rwa [← c.writerLock_dropSender]
    | failed _ _ | resolved _ _ | abandoned _ _ | cleared _ | cancelledHolding _ => cases hk
    | notConnected _ _ | invalid _ _ | started _ _ _ | wrote _ _ _ _ | awaits _ | expired _ _
    | cancelledWaiting _ => exact h k hk

/-- The holder of the lock has a step to take, which keeps the lock or returns. -/
theorem holder_steps (now : ConnectionStatus) (h : (c.calls id).state.holdsWriter = true) :
    ∃ op d, (Act.call id op).finishes = true ∧ c.step now id op = some d ∧
      ((d.calls id).state.holdsWriter = true ∨
        (∃ result, (d.calls id).state = .returned result) ∧ d.writerLock = none) := by
  cases hstate : (c.calls id).state with
  | storing =>
      refine ⟨.store, _, rfl, by simp only [step, hstate]; rfl, Or.inl ?_⟩
      dsimp only
      rw [calls_setState_self]
      rfl
  | writing rest =>
      by_cases hrest : rest = []
      · refine ⟨.await, _, rfl, by simp only [step, hstate, if_pos hrest]; rfl, Or.inl ?_⟩
        rw [calls_setState_self]
        rfl
      · by_cases hshut : c.writeShutdown = false
        · -- the network takes all that is left
          have hcount : 0 < rest.length ∧ rest.length ≤ rest.length ∧ c.writeShutdown = false :=
            ⟨List.length_pos_of_ne_nil hrest, le_refl _, hshut⟩
          refine ⟨.write rest.length, _, rfl, by simp only [step, hstate, if_pos hcount]; rfl,
            Or.inl ?_⟩
          dsimp only
          rw [calls_setState_self]
          rfl
        · refine ⟨.fail [], _, rfl, by simp only [step, hstate, if_neg hrest]; rfl,
            Or.inr ⟨⟨_, state_finish _⟩, rfl⟩⟩
  | awaiting timeoutMs =>
      cases hreply : (c.calls id).reply with
      | pending =>
          refine ⟨.expire, _, rfl, by simp only [step, hstate, if_pos hreply]; rfl, Or.inl ?_⟩
          rw [calls_setState_self]
          rfl
      | sent message =>
          exact ⟨.resolve, _, rfl, by simp only [step, hstate, hreply]; rfl,
            Or.inr ⟨⟨_, state_finish _⟩, rfl⟩⟩
      | closed =>
          exact ⟨.resolve, _, rfl, by simp only [step, hstate, hreply]; rfl,
            Or.inr ⟨⟨_, state_finish _⟩, rfl⟩⟩
  | timedOut timeoutMs =>
      exact ⟨.clear, _, rfl, by simp only [step, hstate]; rfl,
        Or.inr ⟨⟨_, state_finish _⟩, rfl⟩⟩
  | idle | locking | returned result | cancelled =>
      rw [hstate] at h
      cases h

end Clients

namespace Connection

variable {X : Crates} {s t : Connection} {id k : Nat}

theorem lockHeld_step {a : Act} (h : s.clients.LockHeld) (hstep : s.step X a = some t) :
    t.clients.LockHeld := by
  refine clients_of_step Clients.LockHeld hstep h (fun m _ _ ↦ h.deliver m) ?_ h fun _ ↦ h
  intro id op clients _ heffect
  exact Clients.lockHeld_step h heffect

/-- A run in which calls do nothing but come to their end. -/
def Finishes (X : Crates) (s t : Connection) : Prop :=
  ∃ as, run (Connection.step X) s as = some t ∧ ∀ a ∈ as, a.finishes = true

theorem Finishes.trans {u : Connection} (h : Finishes X s t) (h' : Finishes X t u) :
    Finishes X s u := by
  obtain ⟨as, hrun, has⟩ := h
  obtain ⟨bs, hrun', hbs⟩ := h'
  exact ⟨as ++ bs, run_append_eq_some.mpr ⟨t, hrun, hrun'⟩,
    List.forall_mem_append.mpr ⟨has, hbs⟩⟩

theorem finishes_of_step {op : CallOp} {c : Clients} (hop : (Act.call id op).finishes = true)
    (hstep : s.clients.step s.reader.status id op = some c) :
    Finishes X s { s with clients := c } := by
  refine ⟨[.call id op], ?_, by simpa using hop⟩
  simp [run, step, hstep]

/-- The holder of the lock can return by its own steps, and leaves the other calls where
they are. -/
theorem holder_returns (h : (s.clients.calls id).state.holdsWriter = true) :
    ∃ t, Finishes X s t ∧ (∃ result, (t.clients.calls id).state = .returned result) ∧
      t.clients.writerLock = none ∧
      ∀ k, k ≠ id → (t.clients.calls k).state = (s.clients.calls k).state := by
  induction hleft : (s.clients.calls id).stepsLeft using Nat.strong_induction_on generalizing s with
  | _ left ih =>
    obtain ⟨op, c, hop, hstep, hnext⟩ := Clients.holder_steps s.reader.status h
    have heffect := Clients.effect_of_step hstep
    have hframe : ∀ k, k ≠ id → (c.calls k).state = (s.clients.calls k).state :=
      fun k hk ↦ Clients.state_of_effect_of_ne heffect hk
    have hfirst : Finishes X s { s with clients := c } := finishes_of_step hop hstep
    rcases hnext with hholds | ⟨hreturned, hlock⟩
    · have hbegun : (s.clients.calls id).state ≠ .idle := by
        intro hidle
        rw [hidle] at h
        cases h
      have hless := Clients.stepsLeft_of_effect heffect hbegun
      rw [hleft] at hless
      obtain ⟨t, hfinishes, hreturned, hlock, hothers⟩ :=
        ih _ hless (s := { s with clients := c }) hholds rfl
      exact ⟨t, hfirst.trans hfinishes, hreturned, hlock,
        fun k hk ↦ (hothers k hk).trans (hframe k hk)⟩
    · exact ⟨_, hfirst, hreturned, hlock, hframe⟩

/-- With the lock free a waiting call takes it, and returns. -/
theorem waiting_returns (h : (s.clients.calls id).state = .locking)
    (hlock : s.clients.writerLock = none) :
    ∃ t, Finishes X s t ∧ ∃ result, (t.clients.calls id).state = .returned result := by
  obtain ⟨c, hstep, hstoring⟩ : ∃ c, s.clients.step s.reader.status id .lock = some c ∧
      (c.calls id).state = .storing := by
    refine ⟨_, by simp only [Clients.step, h, if_pos hlock]; rfl, ?_⟩
    dsimp only
    rw [Clients.calls_setState_self]
  have hholds : (({ s with clients := c } : Connection).clients.calls id).state.holdsWriter =
      true := by
    dsimp only
    rw [hstoring]
    rfl
  obtain ⟨t, hfinishes, hreturned, -, -⟩ := holder_returns (X := X) hholds
  exact ⟨t, (finishes_of_step rfl hstep).trans hfinishes, hreturned⟩

end Connection

/-- There is no deadlock: from every state that a run reaches, every call underway can
come to its end by steps of the calls underway alone, with no reply of the server, no step
of the reader, no new call and none that is dropped. -/
theorem sendCommand_returns (X : Crates) {eventQueueSize : Nat} {parser : EslParser}
    {as : List Act} {s : Connection}
    (hrun : run (Connection.step X) (.init eventQueueSize parser) as = some s) {id : Nat}
    (h : (s.clients.calls id).state.underway = true) :
    ∃ bs t, run (Connection.step X) s bs = some t ∧ (∀ b ∈ bs, b.finishes = true) ∧
      ∃ result, (t.clients.calls id).state = .returned result := by
  have hheld := invariant_of_run (I := fun s : Connection ↦ s.clients.LockHeld)
    (fun _ _ _ hs hstep ↦ Connection.lockHeld_step hs hstep) Clients.lockHeld_init hrun
  suffices hreturns : ∃ t, Connection.Finishes X s t ∧
      ∃ result, (t.clients.calls id).state = .returned result by
    obtain ⟨t, ⟨bs, hbs, hfinish⟩, hreturned⟩ := hreturns
    exact ⟨bs, t, hbs, hfinish, hreturned⟩
  by_cases hholds : (s.clients.calls id).state.holdsWriter = true
  · obtain ⟨t, hfinishes, hreturned, -, -⟩ := Connection.holder_returns (X := X) hholds
    exact ⟨t, hfinishes, hreturned⟩
  · have hlocking : (s.clients.calls id).state = .locking := by
      cases hstate : (s.clients.calls id).state <;> simp_all [CallState.underway,
        CallState.holdsWriter]
    cases hlock : s.clients.writerLock with
    | none => exact Connection.waiting_returns hlocking hlock
    | some k =>
        -- first the holder returns, then the lock is free
        have hne : id ≠ k := by
          rintro rfl
          exact hholds (hheld id hlock)
        obtain ⟨u, hfirst, -, hfree, hothers⟩ :=
          Connection.holder_returns (X := X) (hheld k hlock)
        obtain ⟨t, hthen, hreturned⟩ :=
          Connection.waiting_returns (X := X) ((hothers id hne).trans hlocking) hfree
        exact ⟨t, hfirst.trans hthen, hreturned⟩

theorem sendCommand_returns_twoCalls :
    ∃ s, run (Connection.step .percentOnly) (.init 1 EslParser.new) (twoCalls.take 6) = some s ∧
      ∃ bs t, run (Connection.step .percentOnly) s bs = some t ∧
        (∀ b ∈ bs, b.finishes = true) ∧
          ∃ result, (t.clients.calls 1).state = .returned result := by
  have hrun : (run (Connection.step .percentOnly) (.init 1 EslParser.new) (twoCalls.take 6)).any
      (fun s ↦ (s.clients.calls 1).state.underway = true) = true := by
    decide +kernel
  obtain ⟨s, hs, hunderway⟩ := exists_run_of_any hrun
  exact ⟨s, hs, sendCommand_returns .percentOnly hs hunderway⟩

/-! ## How a call returns -/

/-- Where validation fails it says so with a protocol error. -/
def Rejects {α : Type} (r : EslResult α) : Prop :=
  ∀ e, r = .error e → ∃ message, e = .protocolError message

theorem Rejects.of_ok {α : Type} (a : α) : Rejects (pure a : EslResult α) := by
  intro e h
  cases h

theorem Rejects.bind {α β : Type} {r : EslResult α} {f : α → EslResult β} (h : Rejects r)
    (hf : ∀ a, Rejects (f a)) : Rejects (r >>= f) := by
  cases r with
  | error e =>
      intro e' he
      obtain rfl : e = e' := Except.error.inj he
      exact h e rfl
  | ok a => exact hf a

theorem rejects_validateNoNewlines (s : Str) (context : String) :
    Rejects (validateNoNewlines s context) := by
  intro e h
  unfold validateNoNewlines at h
  split at h
  · exact ⟨_, (Except.error.inj h).symm⟩
  · cases h

theorem EslCommand.rejects_validateOption (s : Option Str) (context : String) :
    Rejects (EslCommand.validateOption s context) := by
  cases s with
  | none => exact Rejects.of_ok ()
  | some s => exact rejects_validateNoNewlines s context

theorem CommandBuilder.rejects_header (b : CommandBuilder) (name value : Str) :
    Rejects (b.header name value) :=
  (rejects_validateNoNewlines _ _).bind fun _ ↦
    (rejects_validateNoNewlines _ _).bind fun _ ↦ Rejects.of_ok _

theorem EslCommand.rejects_buildWithEvent (order : HashOrder) (command : Str) (event : EslEvent) :
    Rejects (EslCommand.buildWithEvent order command event) := by
  refine Rejects.bind ?_ fun _ ↦ Rejects.of_ok _
  generalize CommandBuilder.new command = b
  induction order.entries event.headers generalizing b with
  | nil => exact Rejects.of_ok b
  | cons p entries ih =>
      rw [List.foldlM_cons]
      exact (CommandBuilder.rejects_header b p.1 p.2).bind ih

theorem EslCommand.rejects_toWireFormat (order : HashOrder) (c : EslCommand) :
    Rejects (c.toWireFormat order) := by
  cases c with
  | sendMsg uuid event =>
      exact (rejects_validateOption _ _).bind fun _ ↦ rejects_buildWithEvent _ _ _
  | sendEvent event => exact rejects_buildWithEvent _ _ _
  | execute app args uuid =>
      exact (rejects_validateNoNewlines _ _).bind fun _ ↦
        (rejects_validateOption _ _).bind fun _ ↦ (rejects_validateOption _ _).bind fun _ ↦
          (rejects_validateOption _ _).bind fun _ ↦ rejects_buildWithEvent _ _ _
  | filterDelete header value =>
      refine (rejects_validateNoNewlines _ _).bind fun _ ↦
        (rejects_validateOption _ _).bind fun _ ↦ ?_
      split
      · exact Rejects.of_ok _
      · exact Rejects.of_ok _
  | userAuth _ _ | events _ _ | filter _ _ =>
      exact (rejects_validateNoNewlines _ _).bind fun _ ↦
        (rejects_validateNoNewlines _ _).bind fun _ ↦ Rejects.of_ok _
  | myEvents _ _ =>
      exact (rejects_validateNoNewlines _ _).bind fun _ ↦
        (rejects_validateOption _ _).bind fun _ ↦ Rejects.of_ok _
  | auth _ | api _ | bgApi _ | log _ | nixEvent _ | getVar _ =>
      exact (rejects_validateNoNewlines _ _).bind fun _ ↦ Rejects.of_ok _
  | exit | noLog | noOp | linger _ | noLinger | resume | noEvents | divertEvents _ | connect =>
      exact Rejects.of_ok _

/-- The errors that a call can return with, and where in the call they come from. -/
inductive CallError : EslError → Prop
  | notConnected : CallError .notConnected
  | rejected (message : Str) : CallError (.protocolError message)
  | write (error : Str) : CallError (.io error)
  | timeout (timeoutMs : Nat) : CallError (.timeout timeoutMs)

namespace Clients

variable {c d : Clients} {status : ConnectionStatus} {id k : Nat} {op : CallOp}

/-- Nobody takes the sender of a waiting call away, and no call has returned with
another error. -/
structure Answerable (c : Clients) : Prop where
  exclusive : c.Exclusive
  notClosed : ∀ id, (c.calls id).state.waiting = true → (c.calls id).reply ≠ .closed
  errors : ∀ id e, (c.calls id).state = .returned (.error e) → CallError e

theorem answerable_init : Clients.init.Answerable where
  exclusive := exclusive_init
  notClosed := by
    intro id h
    cases h
  errors := by
    intro id e h
    cases h

theorem Answerable.deliver (h : c.Answerable) (m : EslMessage) : (c.deliver m).Answerable where
  exclusive := h.exclusive.deliver m
  notClosed := by
    intro id hwaiting
    rw [state_deliver] at hwaiting
    have hopen := h.notClosed id hwaiting
    unfold Clients.deliver
    split
    · rename_i owner howner
      by_cases heq : id = owner
      · subst heq
        rw [reply_setReply_self]
        intro hclosed
        cases hclosed
      · rwa [calls_setReply_of_ne _ heq]
    · exact hopen
  errors := by
    intro id e hstate
    rw [state_deliver] at hstate
    exact h.errors id e hstate

/-- A waiting call other than the one that steps keeps its reply channel as it is. -/
theorem reply_of_effect_of_ne (h : c.Exclusive) (hstep : Effect status c id op d) (hne : k ≠ id)
    (hwaiting : (c.calls k).state.waiting = true) :
    (d.calls k).reply = (c.calls k).reply := by
  -- while the call waits, no other one has the lock
  have hlock := h.holder k (CallState.holdsWriter_of_waiting hwaiting)
  have hother : (c.calls id).state.holdsWriter = false :=
    h.alone (CallState.holdsWriter_of_waiting hwaiting) hne.symm
  cases hstep with
  | started _ _ _ =>
      dsimp only
      rw [Function.update_of_ne hne]
  | stored hstate | cleared hstate =>
      rw [hstate] at hother
      cases hother
  | notConnected _ _ | invalid _ _ | locked _ _ | wrote _ _ _ _ | awaits _ | failed _ _
  | resolved _ _ | abandoned _ _ | expired _ _ | cancelledWaiting _ | cancelledHolding _ =>
      simp [finish]

theorem answerable_step (h : c.Answerable) (hstep : Effect status c id op d) :
    d.Answerable where
  exclusive := exclusive_step h.exclusive hstep
  notClosed := by
    intro k hk
    by_cases heq : k = id
    · subst heq
      cases hstep with
      | stored _ =>
          dsimp only
          rw [reply_setState, reply_setReply_self]
          intro hclosed
          cases hclosed
      | wrote hstate _ _ _ | awaits hstate =>
          have hopen := h.notClosed k (by rw [hstate]; rfl)
          simpa using hopen
      | started _ _ _ | notConnected _ _ | invalid _ _ | locked _ _ | failed _ _ | resolved _ _
      | abandoned _ _ | expired _ _ | cleared _ | cancelledWaiting _ | cancelledHolding _ =>
          simp [finish, CallState.waiting] at hk
    · rw [state_of_effect_of_ne hstep heq] at hk
      rw [reply_of_effect_of_ne h.exclusive hstep heq hk]
      exact h.notClosed k hk
  errors := by
    intro k e hk
    by_cases heq : k = id
    · subst heq
      cases hstep with
      | notConnected _ _ =>
          rw [calls_setState_self] at hk
          obtain rfl : EslError.notConnected = e := by simpa using hk
          exact .notConnected
      | @invalid order command e' _ hinvalid =>
          rw [calls_setState_self] at hk
          obtain rfl : e' = e := by simpa using hk
          obtain ⟨message, rfl⟩ := EslCommand.rejects_toWireFormat order command _ hinvalid
          exact .rejected message
      | @failed rest error _ _ =>
          rw [state_finish] at hk
          obtain rfl : EslError.io error = e := by simpa using hk
          exact .write error
      | @cleared timeoutMs _ =>
          rw [state_finish] at hk
          obtain rfl : EslError.timeout timeoutMs.toNat = e := by simpa using hk
          exact .timeout _
      | abandoned hstate hreply =>
          exact absurd hreply (h.notClosed k (by rw [hstate]; rfl))
      | started _ _ _ | locked _ _ | stored _ | wrote _ _ _ _ | awaits _ | resolved _ _
      | expired _ _ | cancelledWaiting _ | cancelledHolding _ =>
          simp at hk
    · rw [state_of_effect_of_ne hstep heq] at hk
      exact h.errors k e hk

end Clients

theorem Connection.answerable_step {X : Crates} {s t : Connection} {a : Act}
    (h : s.clients.Answerable) (hstep : s.step X a = some t) : t.clients.Answerable := by
  refine clients_of_step Clients.Answerable hstep h (fun m _ _ ↦ h.deliver m) ?_
    ⟨⟨h.exclusive.holder, h.exclusive.slot⟩, h.notClosed, h.errors⟩
    fun _ ↦ ⟨⟨h.exclusive.holder, h.exclusive.slot⟩, h.notClosed, h.errors⟩
  intro id op clients _ heffect
  exact Clients.answerable_step h heffect

/-- In every run, also when calls are dropped, writes fail and the reader ends, a call that
returns an error returns `NotConnected`, the rejection of its text, the error of a write or
`Timeout`, and never `ConnectionClosed`. -/
theorem sendCommand_errors (X : Crates) {eventQueueSize : Nat} {parser : EslParser}
    {as : List Act} {t : Connection}
    (hrun : run (Connection.step X) (.init eventQueueSize parser) as = some t) (id : Nat) :
    (∀ e, (t.clients.calls id).state = .returned (.error e) → CallError e) ∧
      (t.clients.calls id).state ≠ .returned (.error .connectionClosed) := by
  have h := invariant_of_run (I := fun s : Connection ↦ s.clients.Answerable)
    (fun _ _ _ hs hstep ↦ Connection.answerable_step hs hstep) Clients.answerable_init hrun
  refine ⟨h.errors id, fun hclosed ↦ ?_⟩
  cases h.errors id _ hclosed

theorem sendCommand_errors_eofInFlight :
    ∃ t, run (Connection.step .percentOnly) (.init 1 EslParser.new)
        (eofInFlight ++ [.call 0 .expire, .call 0 .clear]) = some t ∧
      (t.clients.calls 0).state = .returned (.error (.timeout 5000)) ∧
        CallError (.timeout 5000) := by
  have hrun : (run (Connection.step .percentOnly) (.init 1 EslParser.new)
      (eofInFlight ++ [.call 0 .expire, .call 0 .clear])).any
      (fun t ↦ (t.clients.calls 0).state = .returned (.error (.timeout 5000))) = true := by
    decide +kernel
  obtain ⟨t, ht, hstate⟩ := exists_run_of_any hrun
  exact ⟨t, ht, hstate, (sendCommand_errors .percentOnly ht 0).1 _ hstate⟩

/-! ## Calls that the reader leaves behind -/

/-- A call that waits for a reply which nobody is there to hand over, or that has come to
the end of this wait. -/
def Call.LeftBehind (call : Call) : Prop :=
  match call.state with
  | .awaiting _ => call.reply = .pending
  | .timedOut _ | .cancelled => True
  | .returned result => ∃ timeoutMs, result = .error (.timeout timeoutMs)
  | .idle | .locking | .storing | .writing _ => False

namespace Clients

variable {c d : Clients} {status : ConnectionStatus} {id k : Nat} {op : CallOp}

theorem leftBehind_of_effect (h : c.Exclusive) (hcall : (c.calls k).LeftBehind)
    (hstep : Effect status c id op d) : (d.calls k).LeftBehind := by
  unfold Call.LeftBehind at hcall ⊢
  by_cases heq : k = id
  · subst heq
    cases hstep with
    | notConnected hstate _ | invalid hstate _ | started hstate _ _ | locked hstate _
    | stored hstate | wrote hstate _ _ _ | awaits hstate | failed hstate _
    | cancelledWaiting hstate =>
        rw [hstate] at hcall
        cases hcall
    | resolved hstate hreply | abandoned hstate hreply =>
        rw [hstate] at hcall
        rw [hreply] at hcall
        cases hcall
    | expired _ _ =>
        rw [calls_setState_self]
        trivial
    | cleared _ =>
        rw [state_finish]
        exact ⟨_, rfl⟩
    | cancelledHolding _ =>
        dsimp only
        rw [calls_setState_self]
        trivial
  · rw [state_of_effect_of_ne hstep heq]
    cases hstate : (c.calls k).state with
    | awaiting timeoutMs =>
        rw [hstate] at hcall
        dsimp only at hcall ⊢
        rw [reply_of_effect_of_ne h hstep heq (by rw [hstate]; rfl)]
        exact hcall
    | idle | locking | storing | writing _ | timedOut _ | returned _ | cancelled =>
        rw [hstate] at hcall
        exact hcall

end Clients

/-- The reader has ended, and the call is one that it has left behind. -/
structure Connection.LeavesBehind (id : Nat) (s : Connection) : Prop where
  ended : s.reader.pc.terminated = true
  exclusive : s.clients.Exclusive
  call : (s.clients.calls id).LeftBehind

theorem Connection.leavesBehind_step {X : Crates} {id : Nat} {s t : Connection} {a : Act}
    (h : s.LeavesBehind id) (hstep : s.step X a = some t) : t.LeavesBehind id := by
  have hpc := ReaderPc.of_terminated h.ended
  refine ⟨?_, Connection.exclusive_step X h.exclusive hstep, ?_⟩
  · cases effect_of_step X hstep with
    | parsed h' | noticed h' _ _ | noticeRefused h' _ | dispatched h' _ _ | itemRefused h' _
    | replied h' | returned h' | unwound h' | read h' _ =>
        rw [hpc] at h'
        cases h'
    | panicked h' =>
        rw [hpc] at h'
        rcases h' with h' | h' <;> cases h'
    | called _ | shutdown _ | livenessSet | commandTimeoutSet | received _ | streamDropped
    | ticked => exact h.ended
  · refine clients_of_step (fun c ↦ (c.calls id).LeftBehind) hstep h.call ?_ ?_ h.call
      fun _ ↦ h.call
    · intro message _ hreplying
      rw [hpc] at hreplying
      cases hreplying
    · intro k op clients _ heffect
      exact Clients.leftBehind_of_effect h.exclusive h.call heffect

/-- A call that awaits its reply when the reader has ended returns, if it does, with
`Timeout`: an error that counts as recoverable and not as one of the connection. -/
theorem leftBehind_timesOut (X : Crates) {eventQueueSize : Nat} {parser : EslParser}
    {as bs : List Act} {s t : Connection} {id : Nat} {timeoutMs : UInt64}
    {result : EslResult EslResponse}
    (hrun : run (Connection.step X) (.init eventQueueSize parser) as = some s)
    (hended : s.reader.pc.terminated = true)
    (hawaits : (s.clients.calls id).state = .awaiting timeoutMs)
    (hpending : (s.clients.calls id).reply = .pending)
    (hafter : run (Connection.step X) s bs = some t)
    (hreturned : (t.clients.calls id).state = .returned result) :
    ∃ e, result = .error e ∧ (∃ timeoutMs, e = .timeout timeoutMs) ∧
      e.isRecoverable = true ∧ e.isConnectionError = false := by
  have hexclusive := invariant_of_run (I := fun s : Connection ↦ s.clients.Exclusive)
    (fun _ _ _ hs hstep ↦ Connection.exclusive_step X hs hstep) Clients.exclusive_init hrun
  have hstart : s.LeavesBehind id := by
    refine ⟨hended, hexclusive, ?_⟩
    rw [Call.LeftBehind, hawaits]
    exact hpending
  have h := invariant_of_run (I := Connection.LeavesBehind id)
    (fun _ _ _ hs hstep ↦ Connection.leavesBehind_step hs hstep) hstart hafter
  have hcall := h.call
  rw [Call.LeftBehind, hreturned] at hcall
  obtain ⟨ms, rfl⟩ := hcall
  exact ⟨_, rfl, ⟨ms, rfl⟩, rfl, EslError.not_isConnectionError_of_isRecoverable rfl⟩

theorem leftBehind_timesOut_eofInFlight :
    ∃ s t result, run (Connection.step .percentOnly) (.init 1 EslParser.new) eofInFlight = some s ∧
      run (Connection.step .percentOnly) s [.call 0 .expire, .call 0 .clear] = some t ∧
      (t.clients.calls 0).state = .returned result ∧
      ∃ e, result = .error e ∧ (∃ timeoutMs, e = .timeout timeoutMs) ∧
        e.isRecoverable = true ∧ e.isConnectionError = false := by
  have hrun : (run (Connection.step .percentOnly) (.init 1 EslParser.new) eofInFlight).any
      (fun s ↦ s.reader.pc.terminated = true ∧ (s.clients.calls 0).state = .awaiting 5000 ∧
        (s.clients.calls 0).reply = .pending ∧
        ((run (Connection.step .percentOnly) s [.call 0 .expire, .call 0 .clear]).any fun t ↦
          (t.clients.calls 0).state = .returned (.error (.timeout 5000))) = true) = true := by
    decide +kernel
  obtain ⟨s, hs, hended, hawaits, hpending, hafter⟩ := exists_run_of_any hrun
  obtain ⟨t, ht, hreturned⟩ := exists_run_of_any hafter
  exact ⟨s, t, _, hs, ht, hreturned,
    leftBehind_timesOut .percentOnly hs hended hawaits hpending ht hreturned⟩

end FreeswitchEsl
