import FreeswitchEsl.Command
import FreeswitchEsl.Lib.Pattern

/-!
# Commands as frames

A peer reads a command up to the first blank line, and takes as many further
bytes as the `Content-Length` line says.  Whether that is exactly the command
depends on the headers which an attached event brings along.
-/

namespace FreeswitchEsl

open Text

/-! ## Reading a frame -/

def splitFrame (w : Str) : Option (Str × Str) :=
  (Pattern.find ['\n', '\n'] w).map fun pos ↦ (w.take pos, w.drop (pos + 2))

/-- The value of a `Content-Length` line. -/
def contentLengthText (line : Str) : Option Str :=
  (splitOnce ':' line).bind fun p ↦
    if trim p.1 = HEADER_CONTENT_LENGTH then some (trim p.2) else none

/-- The text is a decimal number with the value `n`. -/
def Denotes (text : Str) (n : Nat) : Prop := parseUnsigned (n + 1) text = some n

instance (text : Str) (n : Nat) : Decidable (Denotes text n) :=
  inferInstanceAs (Decidable (_ = _))

/-- Every `Content-Length` line states the number of bytes that follow the block,
and nothing follows a block without one. -/
def SelfDelimiting (w : Str) : Prop :=
  ∃ p, splitFrame w = some p ∧
    (∀ t ∈ (p.1.splitOn '\n').filterMap contentLengthText,
      Denotes t (utf8Encode p.2).length) ∧
    ((p.1.splitOn '\n').filterMap contentLengthText = [] → p.2 = [])

theorem splitFrame_intercalate {ls : List Str} (hne : ls ≠ [])
    (h : ∀ l ∈ ls, l ≠ [] ∧ '\n' ∉ l) (rest : Str) :
    splitFrame (['\n'].intercalate ls ++ '\n' :: '\n' :: rest) =
      some (['\n'].intercalate ls, rest) := by
  have hfind := Pattern.find_intercalate hne h rest
  have hdrop : (['\n'].intercalate ls ++ '\n' :: '\n' :: rest).drop
      ((['\n'].intercalate ls).length + 2) = rest := by
    rw [← List.drop_drop, List.drop_left]
    rfl
  change (Pattern.find ['\n', '\n'] (['\n'].intercalate ls ++ (['\n', '\n'] ++ rest))).map _ = _
  rw [hfind]
  exact congrArg some (Prod.ext List.take_left hdrop)

theorem selfDelimiting_intercalate_iff {ls : List Str} (hne : ls ≠ [])
    (h : ∀ l ∈ ls, l ≠ [] ∧ '\n' ∉ l) (rest : Str) :
    SelfDelimiting (['\n'].intercalate ls ++ '\n' :: '\n' :: rest) ↔
      (∀ t ∈ ls.filterMap contentLengthText, Denotes t (utf8Encode rest).length) ∧
        (ls.filterMap contentLengthText = [] → rest = []) := by
  have hsplit : (['\n'].intercalate ls).splitOn '\n' = ls :=
    List.splitOn_intercalate '\n' (fun l hl ↦ (h l hl).2) hne
  constructor
  · rintro ⟨p, hp, hstated⟩
    rw [splitFrame_intercalate hne h] at hp
    obtain rfl := Option.some.inj hp
    rwa [hsplit] at hstated
  · intro hstated
    refine ⟨_, splitFrame_intercalate hne h rest, ?_⟩
    rwa [hsplit]

/-! ## What a command writes -/

theorem validateNoNewlines_eq_ok {s : Str} {context : String} {u : Unit}
    (h : validateNoNewlines s context = .ok u) : '\n' ∉ s ∧ '\r' ∉ s := by
  rw [validateNoNewlines] at h
  split at h
  · cases h
  · rename_i hnot
    exact not_or.mp hnot

namespace CommandBuilder

/-- The `Content-Length` line that belongs to a body. -/
def lengthLines : Option Str → List Str
  | none => []
  | some body => ["Content-Length: ".toList ++ displayNat (utf8Encode body).length]

theorem build_eq (order : HashOrder) (b : CommandBuilder) :
    b.build order =
      ['\n'].intercalate
        (b.command :: (order.entries b.headers).map headerLine ++ lengthLines b.body) ++
      '\n' :: '\n' :: b.body.getD [] := by
  have hne : b.command :: (order.entries b.headers).map headerLine ++ lengthLines b.body ≠ [] := by
    simp
  have hblock := Pattern.flatMap_append_eq_intercalate (c := '\n') hne
  have hlines : b.build order = ((b.command :: (order.entries b.headers).map headerLine ++
      lengthLines b.body).flatMap fun l ↦ l ++ ['\n']) ++ '\n' :: b.body.getD [] := by
    unfold build lengthLines
    cases b.body <;> simp [List.flatMap_map]
  rw [hlines, hblock]
  simp

theorem of_header_eq_ok {b b' : CommandBuilder} {name value : Str}
    (h : b.header name value = .ok b') :
    '\n' ∉ name ∧ '\n' ∉ value ∧ b' = { b with headers := b.headers.insert name value } := by
  obtain ⟨u, hname, h⟩ := bind_eq_ok.mp h
  obtain ⟨v, hvalue, h⟩ := bind_eq_ok.mp h
  exact ⟨(validateNoNewlines_eq_ok hname).1, (validateNoNewlines_eq_ok hvalue).1,
    (Except.ok.inj h).symm⟩

theorem of_foldlM_header_eq_ok {entries : List (Str × Str)} {b b' : CommandBuilder}
    (h : entries.foldlM (fun (b : CommandBuilder) p ↦ b.header p.1 p.2) b = .ok b') :
    (∀ p ∈ entries, '\n' ∉ p.1 ∧ '\n' ∉ p.2) ∧
      b' = { b with headers := entries.foldl (fun m p ↦ m.insert p.1 p.2) b.headers } := by
  induction entries generalizing b with
  | nil => exact ⟨by simp, (Except.ok.inj h).symm⟩
  | cons p entries ih =>
      rw [List.foldlM_cons] at h
      obtain ⟨c, hc, h⟩ := bind_eq_ok.mp h
      obtain ⟨hname, hvalue, rfl⟩ := of_header_eq_ok hc
      obtain ⟨hrest, rfl⟩ := ih h
      refine ⟨?_, rfl⟩
      intro q hq
      rcases List.mem_cons.mp hq with rfl | hq
      · exact ⟨hname, hvalue⟩
      · exact hrest q hq

end CommandBuilder

namespace EslCommand

/-- What a command consists of on the wire: a line that is no `Content-Length`
line, header lines, and possibly a body with its `Content-Length` line. -/
structure Writes (line : Str) (entries : List (Str × Str)) (body : Option Str) (w : Str) :
    Prop where
  line_ne : line ≠ []
  line_clean : '\n' ∉ line
  line_plain : contentLengthText line = none
  entries_clean : ∀ p ∈ entries, '\n' ∉ p.1 ∧ '\n' ∉ p.2
  text_eq : w = ['\n'].intercalate (line :: entries.map CommandBuilder.headerLine ++
    CommandBuilder.lengthLines body) ++ '\n' :: '\n' :: body.getD []

theorem contentLengthText_cons {c : Char} (hc : isWhitespace c = false) (hC : c ≠ 'C') (l : Str) :
    contentLengthText (c :: l) = none := by
  unfold contentLengthText
  cases hsplit : splitOnce ':' (c :: l) with
  | none => rfl
  | some p =>
      obtain ⟨a, b⟩ := p
      have htrim : trim a ≠ HEADER_CONTENT_LENGTH := by
        obtain ⟨hl, -⟩ := splitOnce_eq_some hsplit
        cases a with
        | nil => decide
        | cons d a =>
            obtain rfl : c = d := (List.cons.inj hl).1
            rw [trim, trimStart_cons, hc]
            simp only [Bool.false_eq_true, if_false, trimEnd_cons_of_not hc]
            intro h
            exact hC (List.cons.inj h).1
      simp [htrim]

theorem formatSimpleCommand_eq (cmd : String) (args : List Str) :
    formatSimpleCommand cmd args =
      cmd.toList ++ args.flatMap (fun arg ↦ ' ' :: arg) ++ ['\n', '\n'] := by
  have hfold : ∀ (args : List Str) (init : Str),
      args.foldl (fun result arg ↦ result ++ ' ' :: arg) init =
        init ++ args.flatMap fun arg ↦ ' ' :: arg := by
    intro args
    induction args with
    | nil => simp
    | cons arg args ih =>
        intro init
        rw [List.foldl_cons, ih, List.flatMap_cons, List.append_assoc]
  rw [formatSimpleCommand, hfold]

/-- A keyword starts with a small letter and has no newline. -/
def isKeyword (s : Str) : Bool :=
  match s with
  | [] => false
  | c :: s => c.isLower && !(c :: s).contains '\n'

theorem of_isKeyword {k rest : Str} (hk : isKeyword k = true) (hrest : '\n' ∉ rest) :
    k ++ rest ≠ [] ∧ '\n' ∉ k ++ rest ∧ contentLengthText (k ++ rest) = none := by
  cases k with
  | nil => cases hk
  | cons c k =>
      obtain ⟨hlower, hnewline⟩ := Bool.and_eq_true_iff.mp hk
      have hspace : isWhitespace c = false := by
        apply isWhitespace_of_isAlphanum
        exact isAlphanum_of_isLower hlower
      have hC : c ≠ 'C' := by
        rintro rfl
        cases hlower
      refine ⟨by simp, ?_, contentLengthText_cons hspace hC _⟩
      rw [List.mem_append, not_or]
      exact ⟨by simpa using hnewline, hrest⟩

theorem writes_formatSimpleCommand {cmd : String} {args : List Str}
    (hcmd : isKeyword cmd.toList = true) (hargs : ∀ arg ∈ args, '\n' ∉ arg) :
    Writes (cmd.toList ++ args.flatMap fun arg ↦ ' ' :: arg) [] none
      (formatSimpleCommand cmd args) := by
  have hrest : '\n' ∉ args.flatMap fun arg ↦ ' ' :: arg := by
    intro hmem
    obtain ⟨arg, harg, hmem⟩ := List.mem_flatMap.mp hmem
    rcases List.mem_cons.mp hmem with h | h
    · exact absurd h (by decide)
    · exact hargs arg harg h
  obtain ⟨hne, hclean, hplain⟩ := of_isKeyword hcmd hrest
  refine ⟨hne, hclean, hplain, by simp, ?_⟩
  rw [formatSimpleCommand_eq]
  simp [CommandBuilder.lengthLines]

theorem writes_buildWithEvent {order : HashOrder} {k rest w : Str} {event : EslEvent}
    (hk : isKeyword k = true) (hrest : '\n' ∉ rest)
    (h : buildWithEvent order (k ++ rest) event = .ok w) :
    Writes (k ++ rest) (order.entries event.headers) event.body w := by
  obtain ⟨hne, hclean, hplain⟩ := of_isKeyword hk hrest
  obtain ⟨builder, hbuilder, h⟩ := bind_eq_ok.mp h
  obtain ⟨hentries, hfold⟩ := CommandBuilder.of_foldlM_header_eq_ok hbuilder
  have hcopied : builder = ⟨k ++ rest, event.headers, none⟩ := by
    rw [hfold]
    exact congrArg (CommandBuilder.mk (k ++ rest) · none) (order.ofList_entries event.headers)
  subst hcopied
  refine ⟨hne, hclean, hplain, hentries, ?_⟩
  rw [← Except.ok.inj h, CommandBuilder.build_eq]
  cases event.body <;> rfl

def attachedEvent : EslCommand → Option EslEvent
  | sendMsg _ event => some event
  | execute app args _ => some (executeEvent app args)
  | sendEvent event => some event
  | _ => none

theorem validateOption_eq_ok {s : Option Str} {context : String} {u : Unit}
    (h : validateOption s context = .ok u) : ∀ t, s = some t → '\n' ∉ t := by
  rintro t rfl
  exact (validateNoNewlines_eq_ok h).1

theorem writes_sendMsg {order : HashOrder} {uuid : Option Str} {event : EslEvent} {w : Str}
    (h : sendMsgToWireFormat order uuid event = .ok w) :
    ∃ line, Writes line (order.entries event.headers) event.body w := by
  obtain ⟨u, huuid, h⟩ := bind_eq_ok.mp h
  have hclean := validateOption_eq_ok huuid
  refine ⟨sendMsgLine uuid, writes_buildWithEvent (by decide) ?_ h⟩
  cases uuid with
  | none => decide
  | some t => simpa using hclean t rfl

theorem newline_notMem_display (t : EslEventType) : '\n' ∉ t.display := by
  cases t <;> decide +kernel

theorem newline_notMem_sendEventName {event : EslEvent}
    (h : ∀ value, event.header HEADER_EVENT_NAME = some value → '\n' ∉ value) :
    '\n' ∉ sendEventName event := by
  unfold sendEventName
  cases htype : event.eventType with
  | some t =>
      rw [Option.map_some, Option.some_or, Option.getD_some]
      exact newline_notMem_display t
  | none =>
      rw [Option.map_none, Option.none_or]
      cases hname : event.header HEADER_EVENT_NAME with
      | none => decide
      | some value => exact h value hname

theorem writes_simple {cmd : String} {args : List Str} {w : Str}
    (h : (pure (formatSimpleCommand cmd args) : EslResult Str) = .ok w)
    (hcmd : isKeyword cmd.toList = true) (hargs : ∀ arg ∈ args, '\n' ∉ arg) :
    ∃ line, Writes line [] none w := by
  obtain rfl := Except.ok.inj h
  exact ⟨_, writes_formatSimpleCommand hcmd hargs⟩

/-- The header lines that a command copies, and its body. -/
def attachedEntries (order : HashOrder) (c : EslCommand) : List (Str × Str) :=
  (c.attachedEvent.map fun event ↦ order.entries event.headers).getD []

def attachedBody (c : EslCommand) : Option Str := c.attachedEvent.bind EslEvent.body

/-- Whatever the command, its text is a line, copied header lines and a body. -/
theorem writes_toWireFormat {order : HashOrder} {c : EslCommand} {w : Str}
    (h : c.toWireFormat order = .ok w) :
    ∃ line, Writes line (c.attachedEntries order) c.attachedBody w := by
  cases c with
  | auth password =>
      obtain ⟨_, hpassword, h⟩ := bind_eq_ok.mp h
      exact writes_simple h (by decide) (by simpa using (validateNoNewlines_eq_ok hpassword).1)
  | userAuth user password =>
      obtain ⟨_, huser, h⟩ := bind_eq_ok.mp h
      obtain ⟨_, hpassword, h⟩ := bind_eq_ok.mp h
      refine writes_simple h (by decide) ?_
      simpa using ⟨(validateNoNewlines_eq_ok huser).1, (validateNoNewlines_eq_ok hpassword).1⟩
  | api command =>
      obtain ⟨_, hcommand, h⟩ := bind_eq_ok.mp h
      exact writes_simple h (by decide) (by simpa using (validateNoNewlines_eq_ok hcommand).1)
  | bgApi command =>
      obtain ⟨_, hcommand, h⟩ := bind_eq_ok.mp h
      exact writes_simple h (by decide) (by simpa using (validateNoNewlines_eq_ok hcommand).1)
  | events format list =>
      obtain ⟨_, hformat, h⟩ := bind_eq_ok.mp h
      obtain ⟨_, hlist, h⟩ := bind_eq_ok.mp h
      refine writes_simple h (by decide) ?_
      simpa using ⟨(validateNoNewlines_eq_ok hformat).1, (validateNoNewlines_eq_ok hlist).1⟩
  | filter header value =>
      obtain ⟨_, hheader, h⟩ := bind_eq_ok.mp h
      obtain ⟨_, hvalue, h⟩ := bind_eq_ok.mp h
      refine writes_simple h (by decide) ?_
      simpa using ⟨(validateNoNewlines_eq_ok hheader).1, (validateNoNewlines_eq_ok hvalue).1⟩
  | sendMsg uuid event => exact writes_sendMsg h
  | execute app args uuid =>
      obtain ⟨_, -, h⟩ := bind_eq_ok.mp h
      obtain ⟨_, -, h⟩ := bind_eq_ok.mp h
      obtain ⟨_, -, h⟩ := bind_eq_ok.mp h
      exact writes_sendMsg h
  | sendEvent event =>
      obtain ⟨_, hbuilder, -⟩ := bind_eq_ok.mp h
      have hentries := (CommandBuilder.of_foldlM_header_eq_ok hbuilder).1
      -- a type name from the headers is checked with the other headers
      refine ⟨_, writes_buildWithEvent (by decide) (newline_notMem_sendEventName ?_) h⟩
      intro value hvalue
      exact (hentries _ (order.mem_entries_iff.mpr hvalue)).2
  | myEvents format uuid =>
      obtain ⟨_, hformat, h⟩ := bind_eq_ok.mp h
      obtain ⟨_, huuid, h⟩ := bind_eq_ok.mp h
      have hformat := (validateNoNewlines_eq_ok hformat).1
      cases uuid with
      | none => exact writes_simple h (by decide) (by simpa using hformat)
      | some u =>
          refine writes_simple h (by decide) ?_
          simpa using ⟨validateOption_eq_ok huuid u rfl, hformat⟩
  | linger timeout =>
      cases timeout with
      | none => exact writes_simple h (by decide) (by simp)
      | some n => exact writes_simple h (by decide) (by simpa using newline_notMem_displayNat _)
  | log level =>
      obtain ⟨_, hlevel, h⟩ := bind_eq_ok.mp h
      exact writes_simple h (by decide) (by simpa using (validateNoNewlines_eq_ok hlevel).1)
  | nixEvent list =>
      obtain ⟨_, hlist, h⟩ := bind_eq_ok.mp h
      exact writes_simple h (by decide) (by simpa using (validateNoNewlines_eq_ok hlist).1)
  | filterDelete header value =>
      obtain ⟨_, hheader, h⟩ := bind_eq_ok.mp h
      obtain ⟨_, hvalue, h⟩ := bind_eq_ok.mp h
      have hheader := (validateNoNewlines_eq_ok hheader).1
      split at h
      · exact writes_simple h (by decide) (by decide)
      · cases value with
        | none =>
            refine writes_simple h (by decide) ?_
            simpa using hheader
        | some v =>
            refine writes_simple h (by decide) ?_
            simpa using ⟨hheader, validateOption_eq_ok hvalue v rfl⟩
  | divertEvents on =>
      refine writes_simple h (by decide) ?_
      cases on <;> decide
  | getVar name =>
      obtain ⟨_, hname, h⟩ := bind_eq_ok.mp h
      exact writes_simple h (by decide) (by simpa using (validateNoNewlines_eq_ok hname).1)
  | exit => exact writes_simple h (by decide) (by simp)
  | noLog => exact writes_simple h (by decide) (by simp)
  | noOp => exact writes_simple h (by decide) (by simp)
  | noLinger => exact writes_simple h (by decide) (by simp)
  | resume => exact writes_simple h (by decide) (by simp)
  | noEvents => exact writes_simple h (by decide) (by simp)
  | connect => exact writes_simple h (by decide) (by simp)

/-! ## When a command is one frame -/

/-- Every header of the attached event that makes a `Content-Length` line states
the byte length of its body. -/
def LengthsAgree (c : EslCommand) : Prop :=
  ∀ event, c.attachedEvent = some event → ∀ name value, event.header name = some value →
    ∀ t, contentLengthText (CommandBuilder.headerLine (name, value)) = some t →
      Denotes t (utf8Encode (event.body.getD [])).length

theorem contentLengthText_lengthLine (n : Nat) :
    contentLengthText ("Content-Length: ".toList ++ displayNat n) = some (displayNat n) := by
  have hstart : "Content-Length: ".toList = HEADER_CONTENT_LENGTH ++ [':', ' '] := by decide
  have htrim : trim (' ' :: displayNat n) = displayNat n := by
    rw [trim_cons_of_whitespace (by decide)]
    exact trimmed_displayNat n
  rw [hstart, List.append_assoc, List.cons_append, List.singleton_append, contentLengthText,
    splitOnce_append (by decide), Option.bind_some, htrim]
  rfl

theorem Writes.lines_clean {line w : Str} {entries : List (Str × Str)} {body : Option Str}
    (h : Writes line entries body w) :
    ∀ l ∈ line :: entries.map CommandBuilder.headerLine ++ CommandBuilder.lengthLines body,
      l ≠ [] ∧ '\n' ∉ l := by
  intro l hl
  rcases List.mem_append.mp hl with hl | hl
  · rcases List.mem_cons.mp hl with rfl | hl
    · exact ⟨h.line_ne, h.line_clean⟩
    · obtain ⟨p, hp, rfl⟩ := List.mem_map.mp hl
      obtain ⟨hname, hvalue⟩ := h.entries_clean p hp
      simp [CommandBuilder.headerLine, hname, hvalue]
  · cases body with
    | none => cases hl
    | some b =>
        obtain rfl := List.mem_singleton.mp hl
        simp [newline_notMem_displayNat]

theorem Writes.selfDelimiting_iff {line w : Str} {entries : List (Str × Str)}
    {body : Option Str} (h : Writes line entries body w) :
    SelfDelimiting w ↔
      ∀ p ∈ entries, ∀ t, contentLengthText (CommandBuilder.headerLine p) = some t →
        Denotes t (utf8Encode (body.getD [])).length := by
  have hlines := h.lines_clean
  rw [h.text_eq, selfDelimiting_intercalate_iff (by simp) hlines]
  constructor
  · rintro ⟨hstated, -⟩ p hp t ht
    refine hstated t (List.mem_filterMap.mpr ⟨_, ?_, ht⟩)
    exact List.mem_append_left _ (List.mem_cons_of_mem _ (List.mem_map_of_mem hp))
  · intro hentries
    constructor
    · intro t ht
      obtain ⟨l, hl, hline⟩ := List.mem_filterMap.mp ht
      rcases List.mem_append.mp hl with hl | hl
      · rcases List.mem_cons.mp hl with rfl | hl
        · rw [h.line_plain] at hline
          cases hline
        · obtain ⟨p, hp, rfl⟩ := List.mem_map.mp hl
          exact hentries p hp t hline
      · cases body with
        | none => cases hl
        | some b =>
            obtain rfl := List.mem_singleton.mp hl
            rw [contentLengthText_lengthLine] at hline
            obtain rfl := Option.some.inj hline
            exact parseUnsigned_displayNat (Nat.lt_succ_self _)
    · intro hnone
      cases body with
      | none => rfl
      | some b =>
          have hlength := List.filterMap_eq_nil_iff.mp hnone _
            (List.mem_append_right _ (List.mem_singleton_self _))
          rw [contentLengthText_lengthLine] at hlength
          cases hlength

theorem header_executeEvent {app name value : Str} {args : Option Str}
    (h : (executeEvent app args).header name = some value) :
    name = "call-command".toList ∧ value = "execute".toList ∨
      name = "execute-app-name".toList ∧ value = app ∨
        name = "execute-app-arg".toList ∧ args = some value := by
  have hbase : ((EslEvent.new.setHeader "call-command".toList "execute".toList).setHeader
      "execute-app-name".toList app).header name = some value →
      name = "call-command".toList ∧ value = "execute".toList ∨
        name = "execute-app-name".toList ∧ value = app := by
    intro hbase
    by_cases happ : name = "execute-app-name".toList
    · subst happ
      rw [EslEvent.header_setHeader_self] at hbase
      exact Or.inr ⟨rfl, (Option.some.inj hbase).symm⟩
    · rw [EslEvent.header_setHeader_of_ne _ _ happ] at hbase
      by_cases hcall : name = "call-command".toList
      · subst hcall
        rw [EslEvent.header_setHeader_self] at hbase
        exact Or.inl ⟨rfl, (Option.some.inj hbase).symm⟩
      · rw [EslEvent.header_setHeader_of_ne _ _ hcall] at hbase
        cases hbase
  cases args with
  | none =>
      rcases hbase h with hcall | happ
      · exact Or.inl hcall
      · exact Or.inr (Or.inl happ)
  | some a =>
      by_cases harg : name = "execute-app-arg".toList
      · subst harg
        have hvalue : some a = some value := by
          rw [← h]
          exact (EslEvent.header_setHeader_self _ _ _).symm
        exact Or.inr (Or.inr ⟨rfl, hvalue⟩)
      · change (EslEvent.setHeader _ "execute-app-arg".toList a).header name = _ at h
        rw [EslEvent.header_setHeader_of_ne _ _ harg] at h
        rcases hbase h with hcall | happ
        · exact Or.inl hcall
        · exact Or.inr (Or.inl happ)

/-- A command is one self-delimiting frame exactly when the length headers of the
event it carries agree with the body. -/
theorem selfDelimiting_iff_lengthsAgree {order : HashOrder} {c : EslCommand} {w : Str}
    (h : c.toWireFormat order = .ok w) : SelfDelimiting w ↔ c.LengthsAgree := by
  obtain ⟨line, hw⟩ := writes_toWireFormat h
  rw [hw.selfDelimiting_iff]
  unfold attachedEntries attachedBody LengthsAgree
  cases hevent : c.attachedEvent with
  | none =>
      constructor
      · intro _ event he
        cases he
      · intro _ p hp
        cases hp
  | some event =>
      constructor
      · intro hentries e he name value hvalue
        obtain rfl := Option.some.inj he
        exact hentries (name, value) (order.mem_entries_iff.mpr hvalue)
      · intro hagree p hp
        exact hagree event rfl p.1 p.2 (order.mem_entries_iff.mp hp)

/-- An event with a stale length, as one received from the wire and given a new
body. -/
def staleEvent : EslEvent :=
  (EslEvent.new.setHeader HEADER_CONTENT_LENGTH "2".toList).setBody "hello".toList

/-- An event with a length of its own that agrees with the body. -/
def greetingEvent : EslEvent :=
  ((EslEvent.new.setHeader "Subject".toList "hi".toList).setHeader HEADER_CONTENT_LENGTH
    "5".toList).setBody "hello".toList

theorem selfDelimiting_iff_lengthsAgree_greeting :
    let w := "sendevent CUSTOM\nContent-Length: 5\nSubject: hi\nContent-Length: 5\n\nhello".toList
    SelfDelimiting w ∧ (sendEvent greetingEvent).LengthsAgree := by
  intro w
  have hwire : (sendEvent greetingEvent).toWireFormat .byName = .ok w := by decide +kernel
  have hframe : SelfDelimiting w := by
    refine ⟨("sendevent CUSTOM\nContent-Length: 5\nSubject: hi\nContent-Length: 5".toList,
      "hello".toList), ?_, ?_, ?_⟩ <;> decide +kernel
  exact ⟨hframe, (selfDelimiting_iff_lengthsAgree hwire).mp hframe⟩

theorem not_selfDelimiting_staleEvent :
    ¬ ∀ order c w, toWireFormat order c = .ok w → SelfDelimiting w := by
  intro h
  obtain ⟨p, hp, hstated, -⟩ := h .byName (sendEvent staleEvent)
    "sendevent CUSTOM\nContent-Length: 2\nContent-Length: 5\n\nhello".toList (by decide +kernel)
  have hblock : splitFrame
      "sendevent CUSTOM\nContent-Length: 2\nContent-Length: 5\n\nhello".toList =
      some ("sendevent CUSTOM\nContent-Length: 2\nContent-Length: 5".toList, "hello".toList) := by
    decide +kernel
  rw [hblock] at hp
  obtain rfl := Option.some.inj hp
  exact absurd (hstated "2".toList (by decide +kernel)) (by decide)

end EslCommand

end FreeswitchEsl
