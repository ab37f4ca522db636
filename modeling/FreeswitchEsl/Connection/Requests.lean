import FreeswitchEsl.ChannelData
import FreeswitchEsl.CommandReading
import FreeswitchEsl.Connection.Sending

/-!
# Requests of a client

What a server reads off the wire, while any number of callers share it: as long as
no call is dropped midway and no write fails, exactly the commands of the calls that
have written them, whole and in the order of the lock.
-/

namespace FreeswitchEsl

open Text Transition

variable {X : Crates}

/-! ## The wire and what has been written -/

/-- The part of its text that the holder of the lock has on the wire, before the
text counts as written. -/
def CallState.HasBegun (text : Bytes) : CallState → Bytes → Prop
  | .storing, part => part = []
  | .writing rest, part => rest = [] ∧ part = [] ∨ rest ≠ [] ∧ part ++ rest = text
  | .awaiting _, part | .timedOut _, part => part = []
  | _, _ => False

namespace Clients

variable {c d : Clients} {status : ConnectionStatus} {id : Nat} {op : CallOp} {part : Bytes}

/-- The wire carries the texts of the written calls and a part of the next one. -/
structure OnWire (c : Clients) (part : Bytes) : Prop where
  wire : c.wire = c.written.flatMap (fun k ↦ (c.calls k).text) ++ part
  free : c.writerLock = none → part = []
  held : ∀ k, c.writerLock = some k → (c.calls k).state.HasBegun (c.calls k).text part
  whole : ∀ k ∈ c.written, (c.calls k).state ≠ .idle ∧ (c.calls k).text ≠ []

namespace OnWire

theorem ne_idle (h : c.OnWire part) (hlock : c.writerLock = some id) :
    (c.calls id).state ≠ .idle := by
  intro hidle
  have hbegun := h.held id hlock
  rw [hidle] at hbegun
  exact hbegun

theorem whole_of_effect (h : c.OnWire part) (hstep : Effect status c id op d) {k : Nat}
    (hk : k ∈ c.written) : (d.calls k).state ≠ .idle ∧ (d.calls k).text ≠ [] := by
  obtain ⟨hbegun, htext⟩ := h.whole k hk
  exact ⟨ne_idle_of_effect hstep hbegun, text_of_effect hstep hbegun ▸ htext⟩

theorem flatMap_text (h : c.OnWire part) (hstep : Effect status c id op d) :
    c.written.flatMap (fun k ↦ (d.calls k).text) =
      c.written.flatMap (fun k ↦ (c.calls k).text) := by
  apply List.flatMap_congr
  intro k hk
  exact text_of_effect hstep (h.whole k hk).1

/-- A step that writes nothing. -/
theorem of_silent (h : c.OnWire part) (hstep : Effect status c id op d)
    (hwritten : d.written = c.written) (hwire : d.wire = c.wire)
    (hfree : d.writerLock = none → part = [])
    (hheld : ∀ k, d.writerLock = some k → (d.calls k).state.HasBegun (d.calls k).text part) :
    d.OnWire part where
  wire := by
    rw [hwire, hwritten, h.flatMap_text hstep]
    exact h.wire
  free := hfree
  held := hheld
  whole := by
    rw [hwritten]
    exact fun k hk ↦ h.whole_of_effect hstep hk

/-- A step that writes nothing and leaves the lock alone. -/
theorem of_quiet (h : c.OnWire part) (hstep : Effect status c id op d)
    (hwritten : d.written = c.written) (hwire : d.wire = c.wire)
    (hlock : d.writerLock = c.writerLock)
    (hid : c.writerLock = some id → (d.calls id).state.HasBegun (c.calls id).text part) :
    d.OnWire part := by
  refine h.of_silent hstep hwritten hwire (hlock ▸ h.free) fun k hk ↦ ?_
  rw [hlock] at hk
  rw [text_of_effect hstep (h.ne_idle hk)]
  by_cases heq : k = id
  · subst heq
    exact hid hk
  · rw [state_of_effect_of_ne hstep heq]
    exact h.held k hk

/-- The holder gives up the lock behind its whole text. -/
theorem of_release (h : c.OnWire part) (hstep : Effect status c id op d)
    (hwritten : d.written = c.written) (hwire : d.wire = c.wire) (hlock : d.writerLock = none)
    (hpart : part = []) : d.OnWire part := by
  refine h.of_silent hstep hwritten hwire (fun _ ↦ hpart) fun k hk ↦ ?_
  rw [hlock] at hk
  cases hk

/-- The text is whole with the last write and counts as written. -/
theorem of_last_write (h : c.OnWire part) (hstep : Effect status c id op d) {rest : Bytes}
    (hlock : c.writerLock = some id) (hpart : part ++ rest = (c.calls id).text) (hne : rest ≠ [])
    (hwritten : d.written = c.written ++ [id]) (hwire : d.wire = c.wire ++ rest)
    (hlock' : d.writerLock = c.writerLock) (hstate : (d.calls id).state = .writing []) :
    d.OnWire [] where
  wire := by
    rw [hwritten, hwire, List.flatMap_append, h.flatMap_text hstep, List.flatMap_singleton,
      text_of_effect hstep (h.ne_idle hlock), h.wire, ← hpart]
    simp
  free := fun _ ↦ rfl
  held := by
    intro k hk
    obtain rfl : id = k := by
      rw [hlock', hlock] at hk
      exact Option.some.inj hk
    rw [hstate]
    exact Or.inl ⟨rfl, rfl⟩
  whole := by
    intro k hk
    rw [hwritten] at hk
    rcases List.mem_append.mp hk with hk | hk
    · exact h.whole_of_effect hstep hk
    · obtain rfl := List.mem_singleton.mp hk
      have hbegun := h.ne_idle hlock
      refine ⟨ne_idle_of_effect hstep hbegun, ?_⟩
      rw [text_of_effect hstep hbegun, ← hpart]
      exact fun hnil ↦ hne (List.append_eq_nil_iff.mp hnil).2

/-- More of the text is on the wire, but not all of it. -/
theorem of_part_write (h : c.OnWire part) (hstep : Effect status c id op d) {rest : Bytes}
    {count : Nat} (hlock : c.writerLock = some id) (hpart : part ++ rest = (c.calls id).text)
    (hcount : count < rest.length) (hwritten : d.written = c.written)
    (hwire : d.wire = c.wire ++ rest.take count) (hlock' : d.writerLock = c.writerLock)
    (hstate : (d.calls id).state = .writing (rest.drop count)) :
    d.OnWire (part ++ rest.take count) where
  wire := by
    rw [hwritten, hwire, h.flatMap_text hstep, h.wire, List.append_assoc]
  free := by
    intro hfree
    rw [hlock', hlock] at hfree
    cases hfree
  held := by
    intro k hk
    obtain rfl : id = k := by
      rw [hlock', hlock] at hk
      exact Option.some.inj hk
    rw [hstate, text_of_effect hstep (h.ne_idle hlock)]
    refine Or.inr ⟨List.length_pos_iff.mp (by rw [List.length_drop]; omega), ?_⟩
    rw [List.append_assoc, List.take_append_drop]
    exact hpart
  whole := by
    rw [hwritten]
    exact fun k hk ↦ h.whole_of_effect hstep hk

end OnWire

/-- Every step of a call that is neither dropped nor fails leaves whole texts on the
wire, and a part of one. -/
theorem onWire_step (h : c.OnWire part) (hexclusive : c.Exclusive) (hcancel : op ≠ .cancel)
    (hfail : ∀ e, op ≠ .fail e) (hstep : Effect status c id op d) : ∃ part', d.OnWire part' := by
  have hheld : ∀ {state : CallState}, (c.calls id).state = state → state.holdsWriter = true →
      c.writerLock = some id ∧ state.HasBegun (c.calls id).text part := by
    rintro _ rfl hholds
    have hlock := hexclusive.holder id hholds
    exact ⟨hlock, h.held id hlock⟩
  have hstep' := hstep
  cases hstep with
  | notConnected hstate _ | invalid hstate _ | started hstate _ _ =>
      refine ⟨part, h.of_quiet hstep' rfl rfl rfl fun hlock ↦ ?_⟩
      exact absurd hstate (h.ne_idle hlock)
  | locked hstate hlock =>
      refine ⟨part, h.of_silent hstep' rfl rfl nofun fun k hk ↦ ?_⟩
      obtain rfl : id = k := Option.some.inj hk
      dsimp only
      rw [calls_setState_self]
      exact h.free hlock
  | stored hstate =>
      obtain ⟨hlock, hpart⟩ := hheld hstate rfl
      obtain rfl : part = [] := hpart
      refine ⟨[], h.of_quiet hstep' written_dropSender wire_dropSender writerLock_dropSender
        fun _ ↦ ?_⟩
      dsimp only
      rw [calls_setState_self]
      by_cases htext : (c.calls id).text = []
      · exact Or.inl ⟨htext, rfl⟩
      · exact Or.inr ⟨htext, rfl⟩
  | @wrote rest count hstate hpos hle _ =>
      obtain ⟨hlock, hpart⟩ := hheld hstate rfl
      have hne : rest ≠ [] := by
        rintro rfl
        rw [List.length_nil] at hle
        omega
      obtain ⟨-, hpart⟩ := hpart.resolve_left fun hnil ↦ hne hnil.1
      by_cases hcount : count = rest.length
      · refine ⟨[], h.of_last_write hstep' hlock hpart hne (if_pos hcount) ?_ rfl ?_⟩
        · dsimp only
          rw [hcount, List.take_length]
        · dsimp only
          rw [calls_setState_self, hcount, List.drop_length]
      · refine ⟨_, h.of_part_write hstep' hlock hpart (by omega) (if_neg hcount) rfl rfl ?_⟩
        dsimp only
        rw [calls_setState_self]
  | awaits hstate =>
      obtain ⟨_, hpart⟩ := hheld hstate rfl
      obtain ⟨-, hpart⟩ := hpart.resolve_right fun hrest ↦ hrest.1 rfl
      refine ⟨part, h.of_quiet hstep' rfl rfl rfl fun _ ↦ ?_⟩
      rw [calls_setState_self]
      exact hpart
  | expired hstate _ =>
      obtain ⟨_, hpart⟩ := hheld hstate rfl
      refine ⟨part, h.of_quiet hstep' rfl rfl rfl fun _ ↦ ?_⟩
      rw [calls_setState_self]
      exact hpart
  | resolved hstate _ | abandoned hstate _ =>
      obtain ⟨_, hpart⟩ := hheld hstate rfl
      exact ⟨part, h.of_release hstep' rfl rfl rfl hpart⟩
  | cleared hstate =>
      obtain ⟨_, hpart⟩ := hheld hstate rfl
      exact ⟨part, h.of_release hstep' written_dropSender wire_dropSender rfl hpart⟩
  | failed _ _ => exact absurd rfl (hfail _)
  | cancelledWaiting _ | cancelledHolding _ => exact absurd rfl hcancel

/-! ## The commands behind the texts -/

/-- A text comes from the command that its call was begun with. -/
theorem text_cases (hstep : Effect status c id op d) (k : Nat) :
    (d.calls k).text = (c.calls k).text ∨
      ∃ order command, k = id ∧ op = .start order command ∧
        command.WritesAs (d.calls k).text := by
  cases hstep with
  | @started order command text _ _ hwire =>
      by_cases heq : k = id
      · subst heq
        refine Or.inr ⟨order, command, rfl, rfl, order, text, hwire, ?_⟩
        dsimp only
        rw [Function.update_self]
      · left
        dsimp only
        rw [Function.update_of_ne heq]
  | stored _ =>
      left
      dsimp only
      rw [text_setState, text_setReply, text_dropSender]
  | cleared _ =>
      left
      change ((c.dropSender.setState id _).calls k).text = _
      rw [text_setState, text_dropSender]
  | notConnected _ _ | invalid _ _ | locked _ _ | wrote _ _ _ _ | awaits _ | failed _ _
  | resolved _ _ | abandoned _ _ | expired _ _ | cancelledWaiting _ | cancelledHolding _ =>
      exact Or.inl (text_setState _)

end Clients

/-- The call `id` of the run was begun with the command. -/
def Begins (as : List Act) (id : Nat) (command : EslCommand) : Prop :=
  ∃ order, .call id (.start order command) ∈ as

/-- A call has no text, or that of the command it was begun with. -/
def Clients.Issued (as : List Act) (c : Clients) : Prop :=
  ∀ id, (c.calls id).text ≠ [] →
    ∃ command, Begins as id command ∧ command.WritesAs (c.calls id).text

/-- The call is dropped midway, or its write fails. -/
def Act.disturbs : Act → Bool
  | .call _ .cancel | .call _ (.fail _) => true
  | _ => false

/-- What a server may rely on while nothing disturbs the calls. -/
structure Requesting (as : List Act) (s : Connection) : Prop where
  exclusive : s.clients.Exclusive
  writtenOnce : s.clients.WrittenOnce
  issued : s.clients.Issued as
  onWire : ∃ part, s.clients.OnWire part

namespace Requesting

variable {as : List Act} {s t : Connection} {a : Act}

theorem issued_step (h : s.clients.Issued as) (hmem : a ∈ as) (hstep : s.step X a = some t) :
    t.clients.Issued as := by
  refine Connection.clients_of_step (Clients.Issued as) hstep h ?_ ?_ h fun _ ↦ h
  · intro m _ _ id htext
    rw [Clients.text_deliver] at htext ⊢
    exact h id htext
  · rintro k op clients rfl heffect id htext
    rcases Clients.text_cases heffect id with hsame | ⟨order, command, rfl, rfl, hwrites⟩
    · rw [hsame] at htext ⊢
      exact h id htext
    · exact ⟨command, ⟨order, hmem⟩, hwrites⟩

theorem onWire_deliver {c : Clients} {part : Bytes} (h : c.OnWire part) (m : EslMessage) :
    (c.deliver m).OnWire part where
  wire := by
    simp only [Clients.wire_deliver, Clients.written_deliver, Clients.text_deliver]
    exact h.wire
  free := by
    rw [Clients.writerLock_deliver]
    exact h.free
  held := by
    intro k hk
    rw [Clients.writerLock_deliver] at hk
    rw [Clients.state_deliver, Clients.text_deliver]
    exact h.held k hk
  whole := by
    rw [Clients.written_deliver]
    intro k hk
    rw [Clients.state_deliver, Clients.text_deliver]
    exact h.whole k hk

theorem onWire_step {part : Bytes} (h : s.clients.OnWire part) (hexclusive : s.clients.Exclusive)
    (hcalm : a.disturbs = false) (hstep : s.step X a = some t) :
    ∃ part', t.clients.OnWire part' := by
  refine Connection.clients_of_step (fun c ↦ ∃ part', c.OnWire part') hstep ⟨part, h⟩
    (fun m _ _ ↦ ⟨part, onWire_deliver h m⟩) ?_ ⟨part, ⟨h.wire, h.free, h.held, h.whole⟩⟩
    fun _ ↦ ⟨part, ⟨h.wire, h.free, h.held, h.whole⟩⟩
  rintro id op clients rfl heffect
  refine Clients.onWire_step h hexclusive ?_ ?_ heffect
  · rintro rfl
    cases hcalm
  · rintro e rfl
    cases hcalm

theorem step (h : Requesting as s) (hmem : a ∈ as) (hcalm : a.disturbs = false)
    (hstep : s.step X a = some t) : Requesting as t := by
  obtain ⟨part, hpart⟩ := h.onWire
  exact ⟨Connection.exclusive_step X h.exclusive hstep,
    Connection.writtenOnce_step X h.writtenOnce hstep, issued_step h.issued hmem hstep,
    onWire_step hpart h.exclusive hcalm hstep⟩

theorem init (eventQueueSize : Nat) (parser : EslParser) :
    Requesting as (.init eventQueueSize parser) where
  exclusive := Clients.exclusive_init
  writtenOnce := ⟨List.nodup_nil, nofun⟩
  issued := fun _ htext ↦ absurd rfl htext
  onWire := ⟨[], rfl, fun _ ↦ rfl, nofun, nofun⟩

theorem run {eventQueueSize : Nat} {parser : EslParser}
    (hrun : Transition.run (Connection.step X) (.init eventQueueSize parser) as = some s)
    (hcalm : ∀ a ∈ as, a.disturbs = false) : Requesting as s := by
  refine invariant_of_meets (C := fun _ a ↦ a ∈ as ∧ a.disturbs = false)
    (fun _ _ _ h hC ↦ h.step hC.1 hC.2) (init eventQueueSize parser) hrun ?_
  exact meets_of_forall fun a ha _ ↦ ⟨ha, hcalm a ha⟩

end Requesting

/-! ## What the server reads -/

/-- The commands behind the texts of calls, in the order of the calls. -/
theorem Clients.Issued.commands {as : List Act} {c : Clients} (h : c.Issued as) {ids : List Nat}
    (hids : ∀ id ∈ ids, (c.calls id).text ≠ []) :
    ∃ commands, List.Forall₂ (Begins as) ids commands ∧
      List.Forall₂ EslCommand.WritesAs commands (ids.map fun id ↦ (c.calls id).text) := by
  induction ids with
  | nil => exact ⟨[], .nil, .nil⟩
  | cons id ids ih =>
      obtain ⟨command, hbegins, hwrites⟩ := h id (hids id List.mem_cons_self)
      obtain ⟨commands, hbegin, hwrite⟩ := ih fun k hk ↦ hids k (List.mem_cons_of_mem id hk)
      exact ⟨command :: commands, .cons hbegins hbegin, .cons hwrites hwrite⟩

theorem exists_begins {as : List Act} {ids : List Nat} {commands : List EslCommand}
    (h : List.Forall₂ (Begins as) ids commands) {command : EslCommand}
    (hmem : command ∈ commands) : ∃ id, Begins as id command := by
  induction h with
  | nil => cases hmem
  | cons hbegin _ ih =>
      rcases List.mem_cons.mp hmem with rfl | hmem
      · exact ⟨_, hbegin⟩
      · exact ih hmem

/-- The part of a text on the wire is not all of it. -/
theorem Clients.OnWire.part_cases {c : Clients} {part : Bytes} (h : c.OnWire part) :
    part = [] ∨ ∃ id rest, rest ≠ [] ∧ part ++ rest = (c.calls id).text := by
  cases hlock : c.writerLock with
  | none => exact Or.inl (h.free hlock)
  | some id =>
      have hheld := h.held id hlock
      cases hstate : (c.calls id).state with
      | storing | awaiting _ | timedOut _ =>
          rw [hstate] at hheld
          exact Or.inl hheld
      | writing rest =>
          rw [hstate] at hheld
          rcases hheld with ⟨-, hnil⟩ | hrest
          · exact Or.inl hnil
          · exact Or.inr ⟨id, rest, hrest⟩
      | idle | locking | returned _ | cancelled =>
          rw [hstate] at hheld
          exact hheld.elim

theorem Requesting.readCommands {as : List Act} {s : Connection} (h : Requesting as s)
    (hlegible : ∀ id command, Begins as id command → command.Legible) :
    ∃ commands, List.Forall₂ (Begins as) s.clients.written commands ∧
      readCommands s.clients.wire = commands.map fun command ↦ some command.received := by
  obtain ⟨part, hpart⟩ := h.onWire
  obtain ⟨commands, hbegins, hwrites⟩ := h.issued.commands fun id hid ↦ (hpart.whole id hid).2
  refine ⟨commands, hbegins, ?_⟩
  have hall : ∀ command ∈ commands, command.Legible := by
    intro command hcommand
    obtain ⟨id, hbegin⟩ := exists_begins hbegins hcommand
    exact hlegible id command hbegin
  have hrest : FreeswitchEsl.readCommands part = [] := by
    rcases hpart.part_cases with rfl | ⟨id, rest, hne, htext⟩
    · exact readCommands_nil
    · have hsome : (s.clients.calls id).text ≠ [] := by
        rw [← htext]
        exact fun hnil ↦ hne (List.append_eq_nil_iff.mp hnil).2
      obtain ⟨command, hbegin, hwrite⟩ := h.issued id hsome
      exact readCommands_part hwrite (hlegible id command hbegin) htext hne
  rw [hpart.wire, List.flatMap_def, readCommands_flatten hall hwrites, hrest, List.append_nil]

/-- In every run that nothing disturbs, a server that reads the wire knows the command
of each call that has written its text, once and in their order, and nothing else. -/
theorem commands_received {eventQueueSize : Nat} {parser : EslParser} {as : List Act}
    {s : Connection}
    (hrun : run (Connection.step X) (.init eventQueueSize parser) as = some s)
    (hcalm : ∀ a ∈ as, a.disturbs = false)
    (hlegible : ∀ id command, Begins as id command → command.Legible) :
    s.clients.written.Nodup ∧
      ∃ commands, List.Forall₂ (Begins as) s.clients.written commands ∧
        readCommands s.clients.wire = commands.map fun command ↦ some command.received := by
  have hinv := Requesting.run hrun hcalm
  exact ⟨hinv.writtenOnce.nodup, hinv.readCommands hlegible⟩

theorem command_of_begins_twoCalls {id : Nat} {command : EslCommand}
    (h : Begins twoCalls id command) :
    id = 0 ∧ command = .api "status".toList ∨ id = 1 ∧ command = .api "uptime".toList := by
  obtain ⟨order, hmem⟩ := h
  simp only [twoCalls, List.mem_cons, Act.call.injEq, CallOp.start.injEq, reduceCtorEq,
    List.not_mem_nil, or_false, and_false] at hmem
  rcases hmem with ⟨hid, -, hcommand⟩ | ⟨hid, -, hcommand⟩
  · exact Or.inl ⟨hid, hcommand⟩
  · exact Or.inr ⟨hid, hcommand⟩

theorem commands_received_twoCalls :
    ∃ s, run (Connection.step .percentOnly) (.init 1 EslParser.new) twoCalls = some s ∧
      s.clients.written = [0] ∧
        readCommands s.clients.wire = [some (.api "status".toList)] := by
  have hrun : (run (Connection.step .percentOnly) (.init 1 EslParser.new) twoCalls).any
      (fun s ↦ s.clients.written = [0]) = true := by
    decide +kernel
  obtain ⟨s, hs, hwritten⟩ := exists_run_of_any hrun
  obtain ⟨-, commands, hbegins, hread⟩ := commands_received hs (by decide) (by
    intro id command hbegin
    rcases command_of_begins_twoCalls hbegin with ⟨-, rfl⟩ | ⟨-, rfl⟩ <;> trivial)
  rw [hwritten] at hbegins
  cases hbegins with
  | cons hbegin hrest =>
      cases hrest
      rcases command_of_begins_twoCalls hbegin with ⟨-, rfl⟩ | ⟨hid, -⟩
      · exact ⟨s, hs, hwritten, hread⟩
      · cases hid

/-! ## Subscriptions -/

/-- The requests of a client that choose the events it gets. -/
inductive EventRequest where
  | subscribeEvents (format : EventFormat) (events : List EslEventType)
  | nixevent (events : List EslEventType)
  | noevents
  | myevents (format : EventFormat)
  | myeventsUuid (uuid : Str) (format : EventFormat)

def eventTypesToString (events : List EslEventType) : Str :=
  [' '].intercalate (events.map EslEventType.display)

namespace EventRequest

/-- The command that the method of the client sends. -/
def command : EventRequest → EslCommand
  | subscribeEvents format events =>
      .events format.display
        (if .all ∈ events then "ALL".toList else eventTypesToString events)
  | nixevent events => .nixEvent (eventTypesToString events)
  | noevents => .noEvents
  | myevents format => .myEvents format.display none
  | myeventsUuid uuid format => .myEvents format.display (some uuid)

def readFormat (s : Str) : Option EventFormat :=
  [EventFormat.plain, .json, .xml].find? fun f ↦ decide (f.display = s)

/-- The types that a list of names stands for, if all of them are known. -/
def readTypes (s : Str) : Option (List EslEventType) :=
  ((s.splitOn ' ').filter (· ≠ [])).mapM EslEventType.parseEventType

/-- The documented syntax of the commands about events, read back into a request. -/
def ofCommand : EslCommand → Option EventRequest
  | .events format events =>
      (readFormat format).bind fun f ↦ (readTypes events).map (subscribeEvents f)
  | .nixEvent events => (readTypes events).map nixevent
  | .noEvents => some noevents
  | .myEvents format none => (readFormat format).map myevents
  | .myEvents format (some uuid) => (readFormat format).map (myeventsUuid uuid)
  | _ => none

/-- All types stand for every list that has them. -/
def asked : EventRequest → EventRequest
  | subscribeEvents format events =>
      subscribeEvents format (if .all ∈ events then [.all] else events)
  | r => r

end EventRequest

/-! ### Names -/

/-- Letters, digits and underscores, at least one. -/
def isName (s : Str) : Bool := !s.isEmpty && s.all fun c ↦ c.isAlphanum || c == '_'

theorem ne_nil_of_isName {s : Str} (h : isName s = true) : s ≠ [] := by
  rintro rfl
  cases h

theorem notMem_of_isName {s : Str} (h : isName s = true) {c : Char}
    (hc : (c.isAlphanum || c == '_') = false) : c ∉ s := by
  intro hmem
  have hall := List.all_eq_true.mp (Bool.and_eq_true_iff.mp h).2 c hmem
  rw [hc] at hall
  cases hall

theorem not_hasLineBreak_of_isName {s : Str} (h : isName s = true) : ¬ HasLineBreak s := by
  rintro (hmem | hmem)
  · exact notMem_of_isName h (by decide) hmem
  · exact notMem_of_isName h (by decide) hmem

namespace EslEventType

/-- The bytes of the name as one number. -/
def nameCode (t : EslEventType) : Nat :=
  t.wireName.toByteArray.data.toList.foldl (fun n b ↦ 256 * n + b.toNat) 0

theorem mem_allTypes (t : EslEventType) : t ∈ allTypes := by
  cases t <;> decide

theorem display_injective : Function.Injective display := by
  -- comparing numbers is much faster than comparing names
  have hnodup : (allTypes.map nameCode).Nodup := by decide +kernel
  intro t u h
  have hname : t.wireName = u.wireName := String.toList_inj.mp h
  have hcode : nameCode t = nameCode u := by rw [nameCode, hname, nameCode]
  exact List.inj_on_of_nodup_map hnodup (mem_allTypes t) (mem_allTypes u) hcode

theorem name_display (t : EslEventType) :
    isName t.display = true ∧ t.display.flatMap toUppercase = t.display := by
  cases t <;> decide +kernel

def naming : ChannelData.Naming EslEventType where
  display := display
  all := allTypes
  fold := toUppercase
  mem_all := mem_allTypes
  display_injective := display_injective
  fold_display t := (name_display t).2

theorem parseEventType_display (t : EslEventType) : parseEventType t.display = some t := by
  have hread := naming.fromStr_display t
  unfold ChannelData.Naming.fromStr at hread
  split at hread
  · rename_i u hfind
    obtain rfl := Except.ok.inj hread
    exact hfind
  · cases hread

end EslEventType

namespace EventRequest

theorem isName_format (f : EventFormat) : isName f.display = true := by
  cases f <;> decide +kernel

theorem readFormat_display (f : EventFormat) : readFormat f.display = some f := by
  cases f <;> decide +kernel

theorem not_hasLineBreak_eventTypesToString (events : List EslEventType) :
    ¬ HasLineBreak (eventTypesToString events) := by
  have hclean : ∀ c, (c.isAlphanum || c == '_') = false → c ≠ ' ' →
      c ∉ eventTypesToString events := by
    intro c hc hspace hmem
    rcases of_mem_intercalate hmem with rfl | ⟨name, hname, hmem⟩
    · exact hspace rfl
    · obtain ⟨t, -, rfl⟩ := List.mem_map.mp hname
      exact notMem_of_isName t.name_display.1 hc hmem
  rintro (hmem | hmem)
  · exact hclean '\n' (by decide) (by decide) hmem
  · exact hclean '\r' (by decide) (by decide) hmem

theorem readTypes_eventTypesToString (events : List EslEventType) :
    readTypes (eventTypesToString events) = some events := by
  have hname : ∀ name ∈ events.map EslEventType.display, isName name = true := by
    intro name hname
    obtain ⟨t, -, rfl⟩ := List.mem_map.mp hname
    exact t.name_display.1
  have hnames : ((eventTypesToString events).splitOn ' ').filter (· ≠ []) =
      events.map EslEventType.display := by
    cases events with
    | nil => decide
    | cons t events =>
        have hsplit := List.splitOn_intercalate ' '
          (fun name hmem ↦ notMem_of_isName (hname name hmem) (by decide)) (by simp)
        rw [eventTypesToString, hsplit, List.filter_eq_self]
        intro name hmem
        exact decide_eq_true (ne_nil_of_isName (hname name hmem))
  have hparse : (events.map EslEventType.display).mapM EslEventType.parseEventType =
      some events := by
    clear hname hnames
    induction events with
    | nil => rfl
    | cons t events ih =>
        rw [List.map_cons, List.mapM_cons, EslEventType.parseEventType_display, ih]
        rfl
  rw [readTypes, hnames, hparse]

/-! ### Round trip -/

/-- The identifier of the session is one word. -/
def Worded : EventRequest → Prop
  | myeventsUuid uuid _ => ' ' ∉ uuid ∧ ¬ HasLineBreak uuid
  | _ => True

theorem legible_command {r : EventRequest} (h : r.Worded) : r.command.Legible := by
  cases r with
  | subscribeEvents format _ | myevents format =>
      exact notMem_of_isName (isName_format format) (by decide)
  | nixevent _ | noevents => trivial
  | myeventsUuid uuid format => exact h.1

theorem isOk_command {r : EventRequest} (h : r.Worded) (order : HashOrder) :
    IsOk (r.command.toWireFormat order) := by
  rw [EslCommand.isOk_toWireFormat_iff]
  intro s hs
  have hformat : ∀ f : EventFormat, ¬ HasLineBreak f.display :=
    fun f ↦ not_hasLineBreak_of_isName (isName_format f)
  cases r with
  | subscribeEvents format events =>
      rcases hs with rfl | rfl
      · exact hformat format
      · split
        · exact not_hasLineBreak_of_isName (by decide)
        · exact not_hasLineBreak_eventTypesToString events
  | nixevent events =>
      obtain rfl := hs
      exact not_hasLineBreak_eventTypesToString events
  | noevents => cases hs
  | myevents format =>
      rcases hs with rfl | hs
      · exact hformat format
      · cases hs
  | myeventsUuid uuid format =>
      rcases hs with rfl | hs
      · exact hformat format
      · obtain rfl := Option.some.inj hs
        exact h.2

theorem ofCommand_command (r : EventRequest) : ofCommand r.command.received = some r.asked := by
  have hall : readTypes "ALL".toList = some [.all] := readTypes_eventTypesToString [.all]
  cases r with
  | subscribeEvents format events =>
      change (readFormat format.display).bind _ = _
      rw [readFormat_display, Option.bind_some, asked]
      split
      · rw [hall]
        rfl
      · rw [readTypes_eventTypesToString]
        rfl
  | nixevent events =>
      change (readTypes (eventTypesToString events)).map _ = _
      rw [readTypes_eventTypesToString]
      rfl
  | noevents => rfl
  | myevents format | myeventsUuid _ format =>
      change (readFormat format.display).map _ = _
      rw [readFormat_display]
      rfl

/-- By the documented syntax every choice of events is read as it was made. -/
theorem eventRequest_understood (order : HashOrder) {r : EventRequest} (h : r.Worded) :
    ∃ w c, r.command.toWireFormat order = .ok w ∧ readCommands (utf8Encode w) = [some c] ∧
      ofCommand c = some r.asked := by
  obtain ⟨w, hw⟩ := isOk_command h order
  have hread := readCommands_flatten (List.forall_mem_singleton.mpr (legible_command h))
    (.cons ⟨order, w, hw, rfl⟩ .nil) []
  rw [List.flatten_singleton, List.append_nil, readCommands_nil, List.append_nil] at hread
  exact ⟨w, _, hw, hread, ofCommand_command r⟩

theorem eventRequest_understood_uuid :
    ∃ w c, (myeventsUuid "7".toList .json).command.toWireFormat .byName = .ok w ∧
      readCommands (utf8Encode w) = [some c] ∧
        ofCommand c = some (myeventsUuid "7".toList .json) := by
  have hworded : (myeventsUuid "7".toList .json).Worded := by
    refine ⟨by decide, ?_⟩
    exact not_hasLineBreak_of_isName (by decide)
  exact eventRequest_understood .byName hworded

end EventRequest

end FreeswitchEsl
