import FreeswitchEsl.Originate.Positions

/-!
# The target of a parsed command

A command line of plain words is read and written again.  An application call and an
inline list are written as they were read, a bare extension is written as the call of an
application.
-/

namespace FreeswitchEsl

open Quoting Text

/-! ## Words that are split and joined again -/

section Words

variable {sep : Char} {prev : Option Char} {token s : Str} {parts : List Str}

/-- Nothing but a separator at the end is lost when a word is split. -/
theorem intercalate_of_split (hword : ∀ c ∈ token ++ s, isWhitespace c = false ∧ c ≠ '\'')
    (hlast : (token ++ s).getLast? ≠ some sep)
    (h : originateSplitLoop sep prev token false s = .ok parts) :
    [sep].intercalate parts = token ++ s := by
  induction s generalizing prev token parts with
  | nil =>
      have htrim : trim token = token :=
        trimmed_of_forall fun c hc ↦ (hword c (List.mem_append_left _ hc)).1
      rw [originateSplitLoop, htrim] at h
      by_cases hempty : token = []
      · subst hempty
        obtain rfl := Except.ok.inj h
        rfl
      · rw [if_neg hempty] at h
        obtain rfl := Except.ok.inj h
        rw [List.intercalate_singleton, List.append_nil]
  | cons c s ih =>
      have htrim : trim token = token :=
        trimmed_of_forall fun d hd ↦ (hword d (List.mem_append_left _ hd)).1
      rw [originateSplitLoop, htrim] at h
      split at h
      · rename_i hsplit
        obtain ⟨rfl, -, hne⟩ := hsplit
        obtain ⟨rest, hrest, h⟩ := bind_eq_ok.mp h
        obtain rfl := Except.ok.inj h
        have hs : s ≠ [] := by
          rintro rfl
          exact hlast List.getLast?_concat
        have hrestlast : ([] ++ s).getLast? ≠ some c := by
          rwa [List.getLast?_append_of_ne_nil _ (List.cons_ne_nil _ _),
            List.getLast?_cons_of_ne_nil hs] at hlast
        have hrestword : ∀ d ∈ [] ++ s, isWhitespace d = false ∧ d ≠ '\'' :=
          fun d hd ↦ hword d (List.mem_append_right _ (List.mem_cons_of_mem _ hd))
        have hjoin : [c].intercalate rest = s := ih hrestword hrestlast hrest
        have hrestne : rest ≠ [] := by
          rintro rfl
          exact hs hjoin.symm
        rw [intercalate_cons hrestne, hjoin]
      · have hquote : c ≠ '\'' := (hword c (by simp)).2
        rw [if_neg fun hc ↦ hquote hc.1] at h
        have happend : token ++ c :: s = token ++ [c] ++ s := by simp
        rw [happend] at hword hlast ⊢
        exact ih hword hlast h

/-- A part of a word has the separator at its front at most. -/
theorem getLast?_ne_of_isToken {t : Str} (h : IsToken sep t) (hquote : '\'' ∉ t)
    (hne : t ≠ [sep]) : t.getLast? ≠ some sep := by
  obtain ⟨c, t, rfl⟩ := List.exists_cons_of_ne_nil h.ne_nil
  cases ht : t with
  | nil => simpa [ht] using hne
  | cons d u =>
      rw [← ht, List.getLast?_cons_of_ne_nil (by simp [ht])]
      intro hlast
      obtain ⟨hc, hrest⟩ : '\'' ≠ c ∧ '\'' ∉ t := by simpa using hquote
      have hclosed := h.closed
      rw [scanToken, toggled_of_ne hc.symm,
        scanQuotes_false_of_mem (escaped_of_notMem hrest _) (List.mem_of_getLast? hlast)] at hclosed
      cases hclosed

end Words

/-! ## Destinations -/

/-- The destinations that are written as they were read: an application call, or an inline
list that does not end with a comma. -/
def KeepsTarget (destination : Str) (dialplan : Option DialplanType) : Prop :=
  if dialplan = some .inline then destination.getLast? ≠ some ','
  else destination.head? = some '&'

instance (destination : Str) (dialplan : Option DialplanType) :
    Decidable (KeepsTarget destination dialplan) :=
  inferInstanceAs (Decidable (if dialplan = some .inline then _ else _))

section Destination

variable {destination text : Str} {dialplan : Option DialplanType} {apps : List Application}

theorem inlineText_eq_iff (hword : Word destination)
    (h : parseApplicationList destination (some .inline) = .ok apps) :
    inlineText apps = destination ↔ destination.getLast? ≠ some ',' := by
  obtain ⟨hsplit, -⟩ := parseApplicationList_inline_eq_ok_iff.mp h
  constructor
  · intro heq
    rw [← heq, ne_eq, getLast?_inlineText (by decide)]
    intro hlast
    obtain ⟨app, happ, hargs⟩ := Option.bind_eq_some_iff.mp hlast
    have hmem : app ∈ apps := List.mem_of_getLast? happ
    have hpart : app.toStringWithDialplan .inline ∈ apps.map (·.toStringWithDialplan .inline) :=
      List.mem_map_of_mem hmem
    have hquote : '\'' ∉ app.toStringWithDialplan .inline := by
      intro hquote
      have hin : '\'' ∈ inlineText apps := mem_intercalate hpart hquote
      rw [heq] at hin
      exact (hword.2 _ hin).2 rfl
    have hne : app.toStringWithDialplan .inline ≠ [','] := by
      intro hcomma
      have hcolon : ':' ∈ app.toStringWithDialplan .inline := by
        simp [toStringWithDialplan_inline]
      rw [hcomma] at hcolon
      cases List.mem_singleton.mp hcolon
    apply getLast?_ne_of_isToken ((inline_of_parse h) app hmem).isToken hquote hne
    rw [toStringWithDialplan_inline, List.getLast?_append_of_ne_nil _ (List.cons_ne_nil _ _),
      List.getLast?_cons, hargs]
    rfl
  · intro hlast
    exact @intercalate_of_split ',' none [] destination _ hword.2 hlast hsplit

/-- An application call is written as it was read, an extension becomes one. -/
theorem xmlText_eq_iff (hd : dialplan ≠ some .inline)
    (h : parseApplicationList destination dialplan = .ok apps) :
    applicationsToString apps .xml = .ok destination ↔ destination.head? = some '&' := by
  rcases parseApplicationList_xml_cases hd h with ⟨name, args, rfl, -, rfl⟩ | ⟨hhead, rfl⟩
  · apply iff_of_true
    · rw [applicationsToString, toStringWithDialplan_xml, Application.argText]
      split
      · rename_i hargs
        rw [hargs]
        rfl
      · rfl
    · rfl
  · refine iff_of_false (fun heq ↦ hhead ?_) hhead
    rw [← Except.ok.inj heq]
    rfl

theorem applicationsToString_eq_iff (hword : Word destination)
    (h : parseApplicationList destination dialplan = .ok apps) :
    applicationsToString apps (dialplan.getD .xml) = .ok destination ↔
      KeepsTarget destination dialplan := by
  rw [KeepsTarget]
  by_cases hd : dialplan = some .inline
  · subst hd
    rw [if_pos rfl, ← inlineText_eq_iff hword h]
    exact ⟨fun heq ↦ Except.ok.inj heq, fun heq ↦ congrArg _ heq⟩
  · rw [if_neg hd, ← xmlText_eq_iff hd h]
    cases dialplan with
    | none => exact Iff.rfl
    | some dp =>
        cases dp with
        | inline => exact absurd rfl hd
        | xml => exact Iff.rfl

end Destination

namespace Originate

/-! ## The fields behind the target -/

/-- The arguments behind the dialplan, if there is one. -/
def behindDialplan (args : List Str) : List Str :=
  if (dialplanOf args).isSome then args.tail else args

/-- A command line of plain words, with at most a context, a caller name, a caller number
and a timeout in plain decimal behind the dialplan. -/
structure CommandForm (endpoint destination : Str) (args : List Str) : Prop where
  word : ∀ t ∈ endpoint :: destination :: args, Word t ∧ '{' ∉ t ∧ '}' ∉ t
  length : (behindDialplan args).length ≤ 4
  timeout : ∀ t, (behindDialplan args)[3]? = some t → ∃ n, t = displayNat n

/-- The text of the command line. -/
def commandLine (endpoint destination : Str) (args : List Str) : Str :=
  "originate".toList ++ ' ' :: [' '].intercalate (endpoint :: destination :: args)

section Form

variable {endpoint destination : Str} {args : List Str} {o : Originate}

theorem parseTimeout_eq {t : Option Str} {timeout : Option UInt32}
    (ht : ∀ s, t = some s → ∃ n, s = displayNat n) (h : parseTimeout t = .ok timeout) :
    (timeout.map fun t ↦ displayNat t.toNat) = t := by
  cases t with
  | none =>
      obtain rfl := Except.ok.inj h
      rfl
  | some s =>
      obtain ⟨n, rfl⟩ := ht s rfl
      rw [parseTimeout, parseU32, parseUnsigned_displayNat_eq] at h
      by_cases hn : n < 2 ^ 32
      · rw [if_pos hn] at h
        obtain rfl := Except.ok.inj h
        rw [Option.map_some, UInt32.toNat_ofNat_of_lt' hn]
      · rw [if_neg hn] at h
        cases h

theorem DialplanType.display_of_fromStr {s : Str} {dp : DialplanType}
    (h : DialplanType.fromStr s = .ok dp) : dp.display = s := by
  rw [DialplanType.fromStr] at h
  split at h
  · rename_i hinline
    obtain rfl := Except.ok.inj h
    exact hinline.symm
  · split at h
    · rename_i hxml
      obtain rfl := Except.ok.inj h
      exact hxml.symm
    · cases h

theorem dialplan_append_behindDialplan (args : List Str) :
    ((dialplanOf args).map DialplanType.display).toList ++ behindDialplan args = args := by
  rw [behindDialplan]
  cases hdialplan : dialplanOf args with
  | none => rfl
  | some dp =>
      obtain ⟨arg, harg, hread⟩ := Option.bind_eq_some_iff.mp hdialplan
      obtain ⟨rest, rfl⟩ := List.head?_eq_some_iff.mp harg
      have hdp : DialplanType.fromStr arg = .ok dp := by
        cases hresult : DialplanType.fromStr arg with
        | error e =>
            rw [hresult] at hread
            cases hread
        | ok dp' =>
            rw [hresult] at hread
            exact congrArg _ (Option.some.inj hread)
      rw [← DialplanType.display_of_fromStr hdp]
      rfl

theorem fourth_eq_getElem? (rest : List Str) : rest.tail.tail.tail.head? = rest[3]? := by
  rcases rest with _ | ⟨a, _ | ⟨b, _ | ⟨c, _ | ⟨d, rest⟩⟩⟩⟩ <;> simp

theorem four_positions {rest : List Str} (h : rest.length ≤ 4) :
    rest.head?.toList ++ rest.tail.head?.toList ++ rest.tail.tail.head?.toList ++
      rest.tail.tail.tail.head?.toList = rest := by
  rcases rest with _ | ⟨a, _ | ⟨b, _ | ⟨c, _ | ⟨d, _ | ⟨e, rest⟩⟩⟩⟩⟩
  case cons.cons.cons.cons.cons =>
    simp only [List.length_cons] at h
    omega
  all_goals rfl

/-- The fields are written as they were read. -/
theorem fields_of_fromArgs {e : Endpoint} (hform : CommandForm endpoint destination args)
    (h : fromArgs e destination args = .ok o) : o.fields = args := by
  obtain ⟨-, hdialplan, -, ⟨hcontext, hname, hnum⟩, htimeout⟩ := of_fromArgs h
  change o.context = (behindDialplan args).head? at hcontext
  change o.cidName = (behindDialplan args).tail.head? at hname
  change o.cidNum = (behindDialplan args).tail.tail.head? at hnum
  change parseTimeout (behindDialplan args).tail.tail.tail.head? = _ at htimeout
  have hdecimal : ∀ s, (behindDialplan args).tail.tail.tail.head? = some s →
      ∃ n, s = displayNat n := by
    rw [fourth_eq_getElem?]
    exact hform.timeout
  have htext := parseTimeout_eq hdecimal htimeout
  calc o.fields
      = ((dialplanOf args).map DialplanType.display).toList ++ behindDialplan args := by
        rw [fields_eq, positional, hdialplan, hcontext, hname, hnum, htext]
        exact congrArg _ (four_positions hform.length)
    _ = args := dialplan_append_behindDialplan args

theorem fromStr_commandLine (hform : CommandForm endpoint destination args) :
    fromStr (commandLine endpoint destination args) =
      fromArgs (.generic endpoint none) destination args := by
  have hword : ∀ t ∈ endpoint :: destination :: args, Word t := fun t ht ↦ (hform.word t ht).1
  have htokens : ∀ t ∈ endpoint :: destination :: args, IsToken ' ' t :=
    fun t ht ↦ (hword t ht).isToken (hword t ht).space_notMem
  have hendpoint : Endpoint.fromStr endpoint = .ok (.generic endpoint none) := by
    rw [Endpoint.fromStr, if_neg (hform.word endpoint List.mem_cons_self).2.1]
  have hunquote : originateUnquote destination = destination :=
    originateUnquote_of_word (hword destination (by simp))
  calc fromStr (commandLine endpoint destination args)
      = fromTokens (endpoint :: destination :: args) := fromStr_tokens htokens
    _ = fromArgs (.generic endpoint none) (originateUnquote destination) args :=
        fromTokens_cons_cons hendpoint destination args
    _ = fromArgs (.generic endpoint none) destination args := by rw [hunquote]

theorem line_eq_iff (start t a b : Str) (fields : List Str) :
    start ++ ' ' :: [' '].intercalate (t :: a :: fields) =
      start ++ ' ' :: [' '].intercalate (t :: b :: fields) ↔ a = b := by
  simp [intercalate_space]

theorem originateQuote_eq_iff {text : Str} (h : ' ' ∉ destination) :
    originateQuote text = destination ↔ text = destination := by
  constructor
  · intro heq
    by_cases hspace : ' ' ∈ text
    · have hmem : ' ' ∈ escapeItem '\\' '\'' text := (mem_escapeItem (by decide)).mpr hspace
      rw [originateQuote_of_mem hspace] at heq
      refine absurd ?_ h
      rw [← heq]
      exact List.mem_append_left _ (List.mem_cons_of_mem _ hmem)
    · rwa [originateQuote_of_notMem hspace] at heq
  · rintro rfl
    exact originateQuote_of_notMem h

/-- A command line that was read is written again exactly when its target is one that is
written as it was read. -/
theorem display_eq_line_iff (hform : CommandForm endpoint destination args)
    (h : fromStr (commandLine endpoint destination args) = .ok o) :
    o.display = some (commandLine endpoint destination args) ↔
      KeepsTarget destination (dialplanOf args) := by
  have hdestination : Word destination := (hform.word destination (by simp)).1
  have hwritten : (Endpoint.generic endpoint none).display = endpoint := rfl
  rw [fromStr_commandLine hform] at h
  have hfields := fields_of_fromArgs hform h
  obtain ⟨hend, hdialplan, happs, -⟩ := of_fromArgs h
  rw [← hdialplan, ← applicationsToString_eq_iff hdestination happs]
  cases htext : applicationsToString o.applications (o.dialplan.getD .xml) with
  | error e =>
      have hnone : o.display = none := by rw [display, htext]
      rw [hnone]
      simp
  | ok text =>
      have hdisplay : o.display = some ("originate".toList ++ ' ' ::
          [' '].intercalate (endpoint :: originateQuote text :: args)) := by
        have happly := display_of_ok htext
        rwa [hend, hfields] at happly
      rw [hdisplay]
      calc some _ = some (commandLine endpoint destination args)
          ↔ originateQuote text = destination :=
            Option.some_inj.trans (line_eq_iff _ _ _ _ _)
        _ ↔ text = destination := originateQuote_eq_iff hdestination.space_notMem
        _ ↔ Except.ok text = Except.ok destination := by rw [Except.ok.injEq]

/-- A call to an extension in an XML dialplan. -/
def extensionCall (name : Str) : Originate where
  endpoint := .generic "user/1".toList none
  applications := [⟨name, none⟩]
  dialplan := some .xml
  context := some "default".toList
  cidName := none
  cidNum := none
  timeout := none

theorem commandForm_extensionCall {destination : Str}
    (h : Word destination ∧ '{' ∉ destination ∧ '}' ∉ destination) :
    CommandForm "user/1".toList destination ["XML".toList, "default".toList] := by
  have hfields : ∀ t ∈ ["user/1".toList, "XML".toList, "default".toList],
      Word t ∧ '{' ∉ t ∧ '}' ∉ t := by decide
  refine ⟨?_, by decide, nofun⟩
  intro t ht
  rcases List.mem_cons.mp ht with rfl | ht
  · exact hfields _ List.mem_cons_self
  · rcases List.mem_cons.mp ht with rfl | ht
    · exact h
    · exact hfields t (List.mem_cons_of_mem _ ht)

theorem display_eq_line_iff_park :
    (extensionCall "park".toList).display =
        some (commandLine "user/1".toList "&park()".toList ["XML".toList, "default".toList]) ↔
      KeepsTarget "&park()".toList (dialplanOf ["XML".toList, "default".toList]) :=
  display_eq_line_iff (commandForm_extensionCall (by decide)) (by decide +kernel)

example : KeepsTarget "&park()".toList none ∧ ¬ KeepsTarget "123".toList none := by decide

theorem not_display_eq_line_extension :
    ¬ ∀ (endpoint destination : Str) (args : List Str) (o : Originate),
      CommandForm endpoint destination args →
        fromStr (commandLine endpoint destination args) = .ok o →
          o.display = some (commandLine endpoint destination args) := by
  intro h
  have hread : fromStr (commandLine "user/1".toList "123".toList
      ["XML".toList, "default".toList]) = .ok (extensionCall "123".toList) := by decide +kernel
  have hline := h _ _ _ _ (commandForm_extensionCall (by decide)) hread
  have hwritten : (extensionCall "123".toList).display =
      some "originate user/1 &123() XML default".toList := by decide +kernel
  rw [hwritten] at hline
  revert hline
  decide +kernel

end Form

end Originate

end FreeswitchEsl
