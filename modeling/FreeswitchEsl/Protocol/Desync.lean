import FreeswitchEsl.Percent
import FreeswitchEsl.Protocol.HeaderBlock

/-!
# Leftover bytes in front of a frame

When an announced length was too small, the rest of the body stands in front of the
next frame and spoils its first line.  The parser refuses the frame only if that
line carries the type, or is read as a length that cannot be.
-/

namespace FreeswitchEsl

open Text

variable (X : Crates)

/-! ## Frames -/

/-- A frame as a peer writes it: header lines in any order, a blank line, and the
body that `Content-Length` announces. -/
structure RawFrame where
  headers : List (Str × Str)
  body : Str
  nodup : (headers.map Prod.fst).Nodup
  name_clean : ∀ h ∈ headers, ':' ∉ h.1 ∧ '\n' ∉ h.1 ∧ Trimmed h.1
  text_clean : ∀ h ∈ headers, '\n' ∉ h.2
  contentType_mem : HEADER_CONTENT_TYPE ∈ headers.map Prod.fst
  contentLength_eq : ∀ h ∈ headers, h.1 = HEADER_CONTENT_LENGTH →
    trim h.2 = displayNat (utf8Encode body).length
  body_fits : (utf8Encode body).length ≤ MAX_MESSAGE_SIZE
  body_announced : HEADER_CONTENT_LENGTH ∉ headers.map Prod.fst → body = []

def RawFrame.text (f : RawFrame) : Str :=
  f.headers.flatMap (fun h ↦ rawLine h ++ ['\n']) ++ '\n' :: f.body

/-! ## The spoilt line -/

/-- The name that the leftover bytes bring along if they have a colon. -/
def leftoverName (leftover : Str) : Option Str :=
  (splitOnce ':' leftover).map fun p ↦ trim p.1

/-- A line behind leftover bytes, cut at its first colon. -/
def spoil (leftover : Str) (h : Str × Str) : Str × Str :=
  match splitOnce ':' leftover with
  | some p => (p.1, p.2 ++ rawLine h)
  | none => (leftover ++ h.1, h.2)

/-- The first line of the frame carries the type and loses it, or it is read as the
only length, which cannot be. -/
def RawFrame.Detects (f : RawFrame) (leftover : Str) : Prop :=
  ∃ first rest, f.headers = first :: rest ∧
    (first.1 = HEADER_CONTENT_TYPE ∧ leftoverName leftover ≠ some HEADER_CONTENT_TYPE ∨
      HEADER_CONTENT_LENGTH ∉ rest.map Prod.fst ∧
        (leftoverName leftover = some HEADER_CONTENT_LENGTH ∨
          leftoverName leftover = none ∧ trim (leftover ++ first.1) = HEADER_CONTENT_LENGTH ∧
            ¬ ReadableLength (readHeader X first).2))

section Spoil

variable {leftover : Str} {h : Str × Str}

theorem rawLine_spoil (leftover : Str) (h : Str × Str) :
    rawLine (spoil leftover h) = leftover ++ rawLine h := by
  unfold spoil
  cases hsplit : splitOnce ':' leftover with
  | none => simp [rawLine]
  | some p =>
      obtain ⟨hleftover, -⟩ := splitOnce_eq_some hsplit
      simp [rawLine, hleftover]

theorem colon_notMem_spoil (hcolon : ':' ∉ h.1) : ':' ∉ (spoil leftover h).1 := by
  unfold spoil
  cases hsplit : splitOnce ':' leftover with
  | none => simp [splitOnce_eq_none_iff.mp hsplit, hcolon]
  | some p => exact (splitOnce_eq_some hsplit).2

theorem newline_notMem_spoil (hleftover : '\n' ∉ leftover) (hh : '\n' ∉ h.1 ∧ '\n' ∉ h.2) :
    '\n' ∉ (spoil leftover h).1 ∧ '\n' ∉ (spoil leftover h).2 := by
  have hline : '\n' ∉ rawLine (spoil leftover h) := by
    rw [rawLine_spoil]
    simp [rawLine, hleftover, hh]
  simpa [rawLine] using hline

/-- A name behind leftover bytes is not the name that it was. -/
theorem trim_append_ne {name : Str} (hleftover : trim leftover ≠ []) (hname : Trimmed name)
    (hne : name ≠ []) : trim (leftover ++ name) ≠ name := by
  have hstart : trimStart leftover ≠ [] := by
    intro hnil
    exact hleftover (by rw [trim, hnil, trimEnd_nil])
  rw [trim, trimStart_append, if_neg hstart, trimEnd_append, hname.trimEnd_eq, if_neg hne]
  simpa using hstart

theorem trim_spoil {name : Str} (hname : leftoverName leftover = some name) :
    trim (spoil leftover h).1 = name := by
  obtain ⟨p, hsplit, rfl⟩ := Option.map_eq_some_iff.mp hname
  simp only [spoil, hsplit]

theorem spoil_of_none (hname : leftoverName leftover = none) :
    spoil leftover h = (leftover ++ h.1, h.2) := by
  have hsplit : splitOnce ':' leftover = none := Option.map_eq_none_iff.mp hname
  simp only [spoil, hsplit]

variable {X}

theorem colon_mem_decoded (hX : X.DecodesPercent) {text : Str} (hcolon : ':' ∈ text) :
    ':' ∈ (X.percentDecodeUtf8 text).getD text := by
  rw [hX]
  cases hdecode : utf8Decode (Percent.decode (utf8Encode text)) with
  | none => exact hcolon
  | some decoded =>
      have hbytes : UInt8.ofNat (':').toNat ∈ utf8Encode decoded := by
        rw [utf8Encode_of_utf8Decode hdecode]
        apply Percent.mem_decode (by decide) (by decide)
        exact (mem_utf8Encode_iff (by decide)).mpr hcolon
      exact (mem_utf8Encode_iff (by decide)).mp hbytes

/-- A line that had a colon of its own is no length. -/
theorem not_readableLength_spoil (hX : X.DecodesPercent) {name : Str}
    (hname : leftoverName leftover = some name) :
    ¬ ReadableLength (readHeader X (spoil leftover h)).2 := by
  obtain ⟨p, hsplit, -⟩ := Option.map_eq_some_iff.mp hname
  have hcolon : ':' ∈ (spoil leftover h).2 := by
    simp [spoil, hsplit, rawLine]
  have hwhite : isWhitespace ':' = false := by decide
  have hdecoded : ':' ∈ trim (readHeader X (spoil leftover h)).2 :=
    mem_trim hwhite (colon_mem_decoded hX (mem_trim hwhite hcolon))
  rintro ⟨length, hparse, -⟩
  rw [parseUsize, parseUnsigned_of_mem hdecoded (by decide) (by decide)] at hparse
  cases hparse

end Spoil

/-! ## What the parser reads -/

section Detection

variable {X} {f : RawFrame} {leftover : Str} {first : Str × Str} {rest : List (Str × Str)}

theorem get_readHeaders_cons (h : Str × Str) (hs : List (Str × Str)) (name : Str) :
    (readHeaders X (h :: hs)).get name =
      ((readHeaders X hs).get name).or
        (if name = trim h.1 then some (readHeader X h).2 else none) :=
  HeaderMap.get_ofList_cons _ _ _

namespace RawFrame

theorem map_fst_rest (hheaders : f.headers = first :: rest) :
    (rest.map (readHeader X)).map Prod.fst = rest.map Prod.fst := by
  rw [List.map_map]
  apply List.map_congr_left
  intro h hmem
  have hname := (f.name_clean h (hheaders ▸ List.mem_cons_of_mem _ hmem)).2.2
  exact hname

theorem get_rest_eq_none_iff (hheaders : f.headers = first :: rest) {name : Str} :
    (readHeaders X rest).get name = none ↔ name ∉ rest.map Prod.fst := by
  rw [readHeaders, HeaderMap.get_ofList_eq_none_iff, map_fst_rest hheaders]

/-- The length of the frame is read if it stands behind the first line. -/
theorem get_rest_contentLength (hX : X.DecodesPercent) (hheaders : f.headers = first :: rest)
    (hmem : HEADER_CONTENT_LENGTH ∈ rest.map Prod.fst) :
    (readHeaders X rest).get HEADER_CONTENT_LENGTH =
      some (displayNat (utf8Encode f.body).length) := by
  obtain ⟨h, hrest, hname⟩ := List.mem_map.mp hmem
  have hheader : h ∈ f.headers := hheaders ▸ List.mem_cons_of_mem _ hrest
  have hnodup : ((rest.map (readHeader X)).map Prod.fst).Nodup := by
    have hall := f.nodup
    rw [hheaders, List.map_cons, List.nodup_cons] at hall
    rw [map_fst_rest hheaders]
    exact hall.2
  have hread : readHeader X h =
      (HEADER_CONTENT_LENGTH, displayNat (utf8Encode f.body).length) := by
    have hplain : '%' ∉ displayNat (utf8Encode f.body).length :=
      fun hc ↦ absurd (isDigit_of_mem_displayNat hc) (by decide)
    rw [readHeader, f.contentLength_eq h hheader hname, hX.decode_plain hplain,
      (f.name_clean h hheader).2.2, hname]
    rfl
  apply HeaderMap.get_ofList_of_mem hnodup
  rw [← hread]
  exact List.mem_map_of_mem hrest

/-- The type is missing exactly if the first line carried it and has lost it. -/
theorem get_contentType_eq_none_iff (hheaders : f.headers = first :: rest)
    (hleftover : trim leftover ≠ []) :
    (readHeaders X (spoil leftover first :: rest)).get HEADER_CONTENT_TYPE = none ↔
      first.1 = HEADER_CONTENT_TYPE ∧ leftoverName leftover ≠ some HEADER_CONTENT_TYPE := by
  have hfirst : HEADER_CONTENT_TYPE ∉ rest.map Prod.fst ↔ first.1 = HEADER_CONTENT_TYPE := by
    have hmem := f.contentType_mem
    have hnodup := f.nodup
    rw [hheaders, List.map_cons] at hmem hnodup
    constructor
    · intro hrest
      exact ((List.mem_cons.mp hmem).resolve_right hrest).symm
    · intro hname
      rw [← hname]
      exact (List.nodup_cons.mp hnodup).1
  rw [get_readHeaders_cons, Option.or_eq_none_iff, get_rest_eq_none_iff hheaders, hfirst]
  apply and_congr_right
  intro hname
  rw [ite_eq_right_iff]
  cases hbrought : leftoverName leftover with
  | some name =>
      rw [trim_spoil hbrought]
      simp [eq_comm]
  | none =>
      have hkey : trim (leftover ++ first.1) ≠ first.1 := by
        apply trim_append_ne hleftover
        · exact (f.name_clean first (hheaders ▸ List.mem_cons_self)).2.2
        · rw [hname]
          decide
      rw [spoil_of_none hbrought]
      rw [hname] at hkey ⊢
      simp [hkey.symm]

/-- The length is refused exactly if the first line is the only one, and no length. -/
theorem bodyLength_spoil_error_iff (hX : X.DecodesPercent) (hheaders : f.headers = first :: rest) :
    (∃ e, bodyLength (readHeaders X (spoil leftover first :: rest)) = .error e) ↔
      HEADER_CONTENT_LENGTH ∉ rest.map Prod.fst ∧
        (leftoverName leftover = some HEADER_CONTENT_LENGTH ∨
          leftoverName leftover = none ∧ trim (leftover ++ first.1) = HEADER_CONTENT_LENGTH ∧
            ¬ ReadableLength (readHeader X first).2) := by
  have hget := get_readHeaders_cons (X := X) (spoil leftover first) rest HEADER_CONTENT_LENGTH
  have hnoError : ∀ {length : Nat},
      bodyLength (readHeaders X (spoil leftover first :: rest)) = .ok length →
        ¬ ∃ e, bodyLength (readHeaders X (spoil leftover first :: rest)) = .error e := by
    rintro length hok ⟨e, herror⟩
    rw [hok] at herror
    cases herror
  by_cases hrest : HEADER_CONTENT_LENGTH ∈ rest.map Prod.fst
  · rw [get_rest_contentLength hX hheaders hrest, Option.some_or] at hget
    apply iff_of_false
    · exact hnoError (bodyLength_of_displayNat hget f.body_fits)
    · exact fun h ↦ h.1 hrest
  · rw [(get_rest_eq_none_iff hheaders).mpr hrest, Option.none_or] at hget
    refine Iff.trans ?_ (and_iff_right hrest).symm
    cases hbrought : leftoverName leftover with
    | some name =>
        rw [trim_spoil hbrought] at hget
        by_cases hname : name = HEADER_CONTENT_LENGTH
        · rw [if_pos hname.symm] at hget
          rw [bodyLength_error_iff hget]
          exact iff_of_true (not_readableLength_spoil hX hbrought) (Or.inl (by rw [hname]))
        · rw [if_neg (Ne.symm hname)] at hget
          apply iff_of_false (hnoError (bodyLength_of_none hget))
          simp [hname]
    | none =>
        rw [spoil_of_none hbrought] at hget
        by_cases hname : trim (leftover ++ first.1) = HEADER_CONTENT_LENGTH
        · rw [if_pos hname.symm, ← spoil_of_none hbrought] at hget
          rw [bodyLength_error_iff hget, spoil_of_none hbrought]
          simp [hname, readHeader]
        · rw [if_neg (Ne.symm hname), ← spoil_of_none hbrought] at hget
          apply iff_of_false (hnoError (bodyLength_of_none hget))
          simp [hname]

/-- A length that is read from a block without the frame's own is read without a body. -/
theorem body_eq_nil (hX : X.DecodesPercent) (hheaders : f.headers = first :: rest)
    (hleftover : trim leftover ≠ []) (hrest : HEADER_CONTENT_LENGTH ∉ rest.map Prod.fst)
    {length : Nat} (hpos : 0 < length)
    (hlength : bodyLength (readHeaders X (spoil leftover first :: rest)) = .ok length) :
    f.body = [] := by
  apply f.body_announced
  intro hmem
  rw [hheaders, List.map_cons] at hmem
  have hfirst : first.1 = HEADER_CONTENT_LENGTH :=
    ((List.mem_cons.mp hmem).resolve_right hrest).symm
  have hget := get_readHeaders_cons (X := X) (spoil leftover first) rest HEADER_CONTENT_LENGTH
  rw [(get_rest_eq_none_iff hheaders).mpr hrest, Option.none_or] at hget
  by_cases hkey : HEADER_CONTENT_LENGTH = trim (spoil leftover first).1
  · cases hbrought : leftoverName leftover with
    | some name =>
        have hname : name = HEADER_CONTENT_LENGTH := (hkey.trans (trim_spoil hbrought)).symm
        obtain ⟨e, herror⟩ := (bodyLength_spoil_error_iff hX hheaders).mpr
          ⟨hrest, Or.inl (hname ▸ hbrought)⟩
        rw [hlength] at herror
        cases herror
    | none =>
        rw [spoil_of_none hbrought, hfirst] at hkey
        exact trim_append_ne hleftover (by decide) (by decide) hkey.symm
  · rw [if_neg hkey] at hget
    rw [bodyLength_of_none hget] at hlength
    cases hlength
    exact absurd hpos (lt_irrefl 0)

/-- Behind a block that is accepted, the body is never refused. -/
theorem frameBody_ne_fail (hX : X.DecodesPercent) (hheaders : f.headers = first :: rest)
    (hleftover : trim leftover ≠ []) {length : Nat}
    (hlength : bodyLength (readHeaders X (spoil leftover first :: rest)) = .ok length)
    (hpos : 0 < length) (messageType : MessageType) (headers : HeaderMap) (e : EslError) :
    frameBody messageType headers length (utf8Encode f.body) ≠ .fail e := by
  by_cases hrest : HEADER_CONTENT_LENGTH ∈ rest.map Prod.fst
  · have hget := get_readHeaders_cons (X := X) (spoil leftover first) rest HEADER_CONTENT_LENGTH
    rw [get_rest_contentLength hX hheaders hrest, Option.some_or] at hget
    obtain rfl := Except.ok.inj (hlength.symm.trans (bodyLength_of_displayNat hget f.body_fits))
    rw [frameBody, if_pos le_rfl, List.take_length, decodeBody, utf8Decode_utf8Encode]
    intro h
    cases h
  · have hlt : ¬ length ≤ (utf8Encode f.body).length := by
      rw [body_eq_nil hX hheaders hleftover hrest hpos hlength, utf8Encode_nil, List.length_nil]
      omega
    rw [frameBody, if_neg hlt]
    intro h
    cases h

/-- With leftover bytes in front, the frame is refused exactly if `Detects` says so. -/
theorem frame_spoilt_fail_iff (hX : X.DecodesPercent) (hleftover : trim leftover ≠ [])
    (hnewline : '\n' ∉ leftover) :
    (∃ e, frame X .waitingForHeaders (utf8Encode (leftover ++ f.text)) = .fail e) ↔
      f.Detects X leftover := by
  obtain ⟨first, rest, hheaders⟩ : ∃ first rest, f.headers = first :: rest := by
    apply List.exists_cons_of_ne_nil
    intro hnil
    have hmem := f.contentType_mem
    simp [hnil] at hmem
  have hdetects : f.Detects X leftover ↔
      (readHeaders X (spoil leftover first :: rest)).get HEADER_CONTENT_TYPE = none ∨
        ∃ e, bodyLength (readHeaders X (spoil leftover first :: rest)) = .error e := by
    rw [get_contentType_eq_none_iff hheaders hleftover, bodyLength_spoil_error_iff hX hheaders]
    constructor
    · rintro ⟨first', rest', hheaders', hcases⟩
      obtain ⟨rfl, rfl⟩ := List.cons.inj (hheaders'.symm.trans hheaders)
      exact hcases
    · exact fun hcases ↦ ⟨first, rest, hheaders, hcases⟩
  have hclean := f.name_clean
  have htext := f.text_clean
  rw [hheaders, List.forall_mem_cons] at hclean htext
  have hcolon : ∀ h ∈ spoil leftover first :: rest, ':' ∉ h.1 :=
    List.forall_mem_cons.mpr ⟨colon_notMem_spoil hclean.1.1, fun h hmem ↦ (hclean.2 h hmem).1⟩
  have hlines : ∀ h ∈ spoil leftover first :: rest, '\n' ∉ h.1 ∧ '\n' ∉ h.2 := by
    refine List.forall_mem_cons.mpr ⟨?_, fun h hmem ↦ ⟨(hclean.2 h hmem).2.1, htext.2 h hmem⟩⟩
    exact newline_notMem_spoil hnewline ⟨hclean.1.2.1, htext.1⟩
  have hbytes : utf8Encode (leftover ++ f.text) =
      utf8Encode ((spoil leftover first :: rest).flatMap (fun h ↦ rawLine h ++ ['\n']) ++ ['\n']) ++
        utf8Encode f.body := by
    rw [← utf8Encode_append, text, hheaders, List.flatMap_cons, List.flatMap_cons, rawLine_spoil]
    simp
  obtain ⟨pos, hpos, htake, hdrop⟩ :=
    find_rawLines (List.cons_ne_nil _ _) hlines (utf8Encode f.body) hbytes
  rw [hdetects]
  constructor
  · rintro ⟨e, hfail⟩
    by_contra haccepted
    obtain ⟨htype, hlength⟩ := not_or.mp haccepted
    obtain ⟨contentType, htype⟩ := Option.ne_none_iff_exists'.mp htype
    obtain ⟨length, hlength⟩ : ∃ length,
        bodyLength (readHeaders X (spoil leftover first :: rest)) = .ok length := by
      cases hread : bodyLength (readHeaders X (spoil leftover first :: rest)) with
      | ok length => exact ⟨length, rfl⟩
      | error e => exact absurd ⟨e, hread⟩ hlength
    have hblock := decodeHeaderBlock_rawLines hcolon hlines htype hlength
    simp only [frame, hpos, htake, hdrop, hblock] at hfail
    split at hfail
    · rename_i hlt
      exact frameBody_ne_fail hX hheaders hleftover hlength hlt _ _ _ hfail
    · cases hfail
  · intro hrefused
    obtain ⟨e, herror⟩ := decodeHeaderBlock_rawLines_eq_error hcolon hlines hrefused
    refine ⟨e, ?_⟩
    simp only [frame, hpos, htake, herror]

end RawFrame

end Detection

/-- A parser that finds leftover text in front of a frame returns an error exactly if
the frame's first line makes it visible. -/
theorem desync_detected_iff {X : Crates} (hX : X.DecodesPercent) {leftover : Str}
    (hleftover : trim leftover ≠ []) (hnewline : '\n' ∉ leftover) (f : RawFrame) {p : EslParser}
    (hstate : p.state = .waitingForHeaders)
    (hdata : p.buffer.data = utf8Encode (leftover ++ f.text)) :
    (∃ e, (p.parseMessage X).1 = .error e) ↔ f.Detects X leftover := by
  rw [parseMessage_error_iff, hstate, hdata]
  exact RawFrame.frame_spoilt_fail_iff hX hleftover hnewline

/-- A frame of one header. -/
def RawFrame.authRequest : RawFrame where
  headers := [(HEADER_CONTENT_TYPE, ' ' :: CONTENT_TYPE_AUTH_REQUEST)]
  body := []
  nodup := by decide
  name_clean := by decide
  text_clean := by decide
  contentType_mem := by decide
  contentLength_eq := by decide
  body_fits := by decide
  body_announced := fun _ ↦ rfl

/-- An event, with its length in front of its type. -/
def RawFrame.eventPlain : RawFrame where
  headers := [(HEADER_CONTENT_LENGTH, " 17".toList),
    (HEADER_CONTENT_TYPE, ' ' :: CONTENT_TYPE_TEXT_EVENT_PLAIN)]
  body := "Event-Name: TALK\n".toList
  nodup := by decide
  name_clean := by decide
  text_clean := by decide
  contentType_mem := by decide
  contentLength_eq := by decide
  body_fits := by decide
  body_announced := by decide

/-- A parser that has received a text. -/
def EslParser.received (text : Str) : EslParser :=
  ⟨EslBuffer.new.extendFromSlice (utf8Encode text), .waitingForHeaders⟩

theorem desync_detected_iff_authRequest :
    ∃ e, ((EslParser.received ("llo".toList ++ RawFrame.authRequest.text)).parseMessage
      .percentOnly).1 = .error e := by
  refine (desync_detected_iff Crates.percentOnly_decodesPercent (by decide) (by decide)
    RawFrame.authRequest rfl (EslBuffer.data_extendFromSlice _ _)).mpr ?_
  exact ⟨_, [], rfl, Or.inl ⟨rfl, by decide⟩⟩

/-- The event loses its length and is delivered without its body. -/
theorem not_desync_detected_eventPlain :
    ¬ ∀ (X : Crates), X.DecodesPercent → ∀ (leftover : Str), trim leftover ≠ [] →
      '\n' ∉ leftover → ∀ (f : RawFrame) (p : EslParser), p.state = .waitingForHeaders →
        p.buffer.data = utf8Encode (leftover ++ f.text) →
          ∃ e, (p.parseMessage X).1 = .error e := by
  intro h
  have hfail := h _ Crates.percentOnly_decodesPercent "llo".toList (by decide) (by decide)
    RawFrame.eventPlain (.received ("llo".toList ++ RawFrame.eventPlain.text)) rfl
    (EslBuffer.data_extendFromSlice _ _)
  have hmessage : ((EslParser.received ("llo".toList ++ RawFrame.eventPlain.text)).parseMessage
      .percentOnly).1.toOption.isSome = true := by
    decide +kernel
  obtain ⟨e, he⟩ := hfail
  rw [he] at hmessage
  cases hmessage

end FreeswitchEsl
