import FreeswitchEsl.CommandFrame

/-!
# The lines of a command

A peer takes every line of a command for itself, so a line break in a field would
be the start of another command.  The conversion refuses exactly the fields with
a line break, and what it writes has the lines it is meant to have.
-/

namespace FreeswitchEsl

open Text

/-! ## The fields of a command -/

def HasLineBreak (s : Str) : Prop := '\n' ∈ s ∨ '\r' ∈ s

/-- A name or a value among the headers of an event. -/
def EslEvent.HasHeaderText (event : EslEvent) (s : Str) : Prop :=
  ∃ name value, event.header name = some value ∧ (s = name ∨ s = value)

/-- The string fields of a command, the body of an event aside. -/
def EslCommand.HasText : EslCommand → Str → Prop
  | .auth password, s => s = password
  | .userAuth user password, s => s = user ∨ s = password
  | .api command, s => s = command
  | .bgApi command, s => s = command
  | .events format list, s => s = format ∨ s = list
  | .filter header value, s => s = header ∨ s = value
  | .sendMsg uuid event, s => uuid = some s ∨ event.HasHeaderText s
  | .execute app args uuid, s => s = app ∨ args = some s ∨ uuid = some s
  | .log level, s => s = level
  | .sendEvent event, s => event.HasHeaderText s
  | .myEvents format uuid, s => s = format ∨ uuid = some s
  | .nixEvent list, s => s = list
  | .filterDelete header value, s => s = header ∨ value = some s
  | .getVar name, s => s = name
  | .exit, _ | .noLog, _ | .noOp, _ | .linger _, _ | .noLinger, _ | .resume, _ | .noEvents, _
  | .divertEvents _, _ | .connect, _ => False

/-! ## Accepted fields -/

def IsOk {α : Type} (r : EslResult α) : Prop := ∃ a, r = .ok a

@[simp] theorem isOk_pure {α : Type} (a : α) : IsOk (pure a : EslResult α) := ⟨a, rfl⟩

theorem not_isOk_iff {α : Type} {r : EslResult α} : (∃ e, r = .error e) ↔ ¬ IsOk r := by
  cases r <;> simp [IsOk]

theorem isOk_bind_iff {α β : Type} {x : EslResult α} {f : α → EslResult β} :
    IsOk (x >>= f) ↔ ∃ a, x = .ok a ∧ IsOk (f a) := by
  constructor
  · rintro ⟨b, hb⟩
    obtain ⟨a, ha, hf⟩ := bind_eq_ok.mp hb
    exact ⟨a, ha, b, hf⟩
  · rintro ⟨a, ha, b, hf⟩
    exact ⟨b, bind_eq_ok.mpr ⟨a, ha, hf⟩⟩

@[simp] theorem isOk_validateNoNewlines {s : Str} {context : String} :
    IsOk (validateNoNewlines s context) ↔ ¬ HasLineBreak s := by
  unfold validateNoNewlines HasLineBreak IsOk
  split
  · rename_i h
    simp [h]
  · rename_i h
    simp [h]

@[simp] theorem isOk_validate_bind {α : Type} {s : Str} {context : String}
    {f : Unit → EslResult α} :
    IsOk (validateNoNewlines s context >>= f) ↔ ¬ HasLineBreak s ∧ IsOk (f ()) := by
  rw [isOk_bind_iff, ← @isOk_validateNoNewlines s context]
  constructor
  · rintro ⟨u, hu, hf⟩
    exact ⟨⟨u, hu⟩, hf⟩
  · rintro ⟨⟨u, hu⟩, hf⟩
    exact ⟨u, hu, hf⟩

namespace EslCommand

@[simp] theorem isOk_validateOption_bind {α : Type} {s : Option Str} {context : String}
    {f : Unit → EslResult α} :
    IsOk (validateOption s context >>= f) ↔
      (∀ t, s = some t → ¬ HasLineBreak t) ∧ IsOk (f ()) := by
  cases s with
  | none =>
      change IsOk (f ()) ↔ _
      simp
  | some t =>
      change IsOk (validateNoNewlines t context >>= f) ↔ _
      simp

theorem isOk_foldlM_header_iff {entries : List (Str × Str)} {b : CommandBuilder} :
    IsOk (entries.foldlM (fun (b : CommandBuilder) p ↦ b.header p.1 p.2) b) ↔
      ∀ p ∈ entries, ¬ HasLineBreak p.1 ∧ ¬ HasLineBreak p.2 := by
  induction entries generalizing b with
  | nil => simp
  | cons p entries ih =>
      rw [List.foldlM_cons, CommandBuilder.header]
      simp only [bind_assoc, pure_bind, isOk_validate_bind, ih, List.forall_mem_cons, and_assoc]

theorem isOk_buildWithEvent_iff {order : HashOrder} {command : Str} {event : EslEvent} :
    IsOk (buildWithEvent order command event) ↔
      ∀ s, event.HasHeaderText s → ¬ HasLineBreak s := by
  have hbuild : IsOk (buildWithEvent order command event) ↔
      IsOk ((order.entries event.headers).foldlM
        (fun (b : CommandBuilder) p ↦ b.header p.1 p.2) (CommandBuilder.new command)) := by
    rw [buildWithEvent, isOk_bind_iff]
    constructor
    · rintro ⟨b, hb, -⟩
      exact ⟨b, hb⟩
    · rintro ⟨b, hb⟩
      exact ⟨b, hb, isOk_pure _⟩
  rw [hbuild, isOk_foldlM_header_iff]
  constructor
  · rintro h s ⟨name, value, hvalue, hs⟩
    obtain ⟨hname, hclean⟩ := h (name, value) (order.mem_entries_iff.mpr hvalue)
    rcases hs with rfl | rfl
    · exact hname
    · exact hclean
  · rintro h ⟨name, value⟩ hp
    have hvalue := order.mem_entries_iff.mp hp
    exact ⟨h name ⟨name, value, hvalue, Or.inl rfl⟩, h value ⟨name, value, hvalue, Or.inr rfl⟩⟩

theorem not_hasLineBreak_of_executeEvent {app s : Str} {args : Option Str}
    (happ : ¬ HasLineBreak app) (hargs : ∀ t, args = some t → ¬ HasLineBreak t)
    (h : (executeEvent app args).HasHeaderText s) : ¬ HasLineBreak s := by
  have hfixed : ∀ t ∈ ["call-command".toList, "execute".toList, "execute-app-name".toList,
      "execute-app-arg".toList], ¬ HasLineBreak t := by
    unfold HasLineBreak
    decide
  obtain ⟨name, value, hvalue, hs⟩ := h
  rcases header_executeEvent hvalue with ⟨rfl, rfl⟩ | ⟨rfl, rfl⟩ | ⟨rfl, harg⟩
  · rcases hs with rfl | rfl <;> exact hfixed _ (by simp)
  · rcases hs with rfl | rfl
    · exact hfixed _ (by simp)
    · exact happ
  · rcases hs with rfl | rfl
    · exact hfixed _ (by simp)
    · exact hargs _ harg

theorem isOk_toWireFormat_iff {order : HashOrder} {c : EslCommand} :
    IsOk (c.toWireFormat order) ↔ ∀ s, c.HasText s → ¬ HasLineBreak s := by
  cases c with
  | sendMsg uuid event =>
      simp only [toWireFormat, sendMsgToWireFormat, isOk_validateOption_bind,
        isOk_buildWithEvent_iff, HasText, or_imp, forall_and]
  | sendEvent event =>
      simp only [toWireFormat, isOk_buildWithEvent_iff, HasText]
  | execute app args uuid =>
      simp only [toWireFormat, sendMsgToWireFormat, isOk_validate_bind,
        isOk_validateOption_bind, isOk_buildWithEvent_iff, HasText, or_imp, forall_and,
        forall_eq]
      constructor
      · rintro ⟨happ, hargs, huuid, -, -⟩
        exact ⟨happ, hargs, huuid⟩
      · rintro ⟨happ, hargs, huuid⟩
        -- the event that is built has no other text than these fields
        exact ⟨happ, hargs, huuid, huuid,
          fun s hs ↦ not_hasLineBreak_of_executeEvent happ hargs hs⟩
  | filterDelete header value =>
      simp only [toWireFormat, isOk_validate_bind, isOk_validateOption_bind, HasText, or_imp,
        forall_and, forall_eq]
      split <;> simp
  | auth _ | userAuth _ _ | api _ | bgApi _ | events _ _ | filter _ _ | log _ | nixEvent _
  | getVar _ | myEvents _ _ =>
      simp only [toWireFormat, isOk_validate_bind, isOk_validateOption_bind, isOk_pure,
        HasText, or_imp, forall_and, forall_eq, and_true]
  | exit | noLog | noOp | linger _ | noLinger | resume | noEvents | divertEvents _ | connect =>
      simp [toWireFormat, HasText]

/-- A command is refused exactly when one of its text fields has a line break.  An
accepted one is written as a line for the command, a line for every header of the
event it sends, the line with the length of the body, a blank line and the body. -/
theorem toWireFormat_lines (order : HashOrder) (c : EslCommand) :
    ((∃ e, c.toWireFormat order = .error e) ↔ ∃ s, c.HasText s ∧ HasLineBreak s) ∧
      ∀ w, c.toWireFormat order = .ok w →
        ∃ line block, splitFrame w = some (block, c.attachedBody.getD []) ∧
          block.splitOn '\n' = line :: (c.attachedEntries order).map CommandBuilder.headerLine ++
            CommandBuilder.lengthLines c.attachedBody := by
  constructor
  · rw [not_isOk_iff, isOk_toWireFormat_iff]
    simp
  · intro w h
    obtain ⟨line, hw⟩ := writes_toWireFormat h
    have hlines := hw.lines_clean
    refine ⟨line, _, hw.text_eq ▸ splitFrame_intercalate (by simp) hlines _, ?_⟩
    exact List.splitOn_intercalate '\n' (fun l hl ↦ (hlines l hl).2) (by simp)

end EslCommand

end FreeswitchEsl
