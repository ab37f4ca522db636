import FreeswitchEsl.Protocol.Framing

/-!
# Header blocks

What the parser makes of a block of header lines, whoever wrote them: every line
with a colon becomes a header, trimmed and decoded, and a later line replaces an
earlier one of its name.
-/

namespace FreeswitchEsl

open Text

variable (X : Crates)

/-! ## Lines -/

/-- A line of a header block, from what stands in front of its first colon and
what stands behind it. -/
def rawLine (h : Str × Str) : Str := h.1 ++ ':' :: h.2

/-- The header that the parser reads from a line. -/
def readHeader (h : Str × Str) : Str × Str :=
  (trim h.1, (X.percentDecodeUtf8 (trim h.2)).getD (trim h.2))

def readHeaders (hs : List (Str × Str)) : HeaderMap := HeaderMap.ofList (hs.map (readHeader X))

/-- Trimming a line takes nothing from around its first colon. -/
theorem parseHeaderLine_rawLine {h : Str × Str} (hcolon : ':' ∉ h.1) :
    trim (rawLine h) ≠ [] ∧ parseHeaderLine X (trim (rawLine h)) = some (readHeader X h) := by
  have hwhite : isWhitespace ':' = false := by decide
  have hstart : trimStart (rawLine h) = trimStart h.1 ++ ':' :: h.2 := by
    rw [rawLine, trimStart_append]
    split
    · rename_i hnil
      rw [hnil, trimStart_cons_of_not hwhite, List.nil_append]
    · rfl
  have htrim : trim (rawLine h) = trimStart h.1 ++ ':' :: trimEnd h.2 := by
    rw [trim, hstart, trimEnd_append, trimEnd_cons_of_not hwhite, if_neg (List.cons_ne_nil _ _)]
  have hname : ':' ∉ trimStart h.1 := fun hmem ↦ hcolon (List.dropWhile_subset _ hmem)
  rw [htrim]
  refine ⟨by simp, ?_⟩
  rw [parseHeaderLine, splitOnce_append hname]
  simp only [Option.map_some, trim_trimStart, trim_trimEnd, readHeader]

variable {X}

theorem parseHeaderLines_congr {ls ls' : List Str} (h : ls.map trim = ls'.map trim)
    (m : HeaderMap) : parseHeaderLines X m ls = parseHeaderLines X m ls' := by
  induction ls generalizing ls' m with
  | nil =>
      obtain rfl : ls' = [] := by simpa using h.symm
      rfl
  | cons l ls ih =>
      cases ls' with
      | nil => simp at h
      | cons l' ls' =>
          obtain ⟨hl, hls⟩ : trim l = trim l' ∧ ls.map trim = ls'.map trim := by simpa using h
          simp only [parseHeaderLines, hl, ih hls]

theorem parseHeaderLines_rawLine {hs : List (Str × Str)} (hcolon : ∀ h ∈ hs, ':' ∉ h.1)
    (m : HeaderMap) :
    parseHeaderLines X m (hs.map rawLine) =
      .ok ((hs.map (readHeader X)).foldl (fun m p ↦ m.insert p.1 p.2) m) := by
  induction hs generalizing m with
  | nil => rfl
  | cons h hs ih =>
      obtain ⟨hne, hparse⟩ := parseHeaderLine_rawLine X (hcolon h List.mem_cons_self)
      simp only [List.map_cons, parseHeaderLines, if_neg hne, hparse, List.foldl_cons]
      exact ih (fun h hmem ↦ hcolon h (List.mem_cons_of_mem _ hmem)) _

/-! ## Lengths -/

/-- The text is a length that the parser accepts. -/
def ReadableLength (text : Str) : Prop :=
  ∃ length, parseUsize (trim text) = some length ∧ length ≤ MAX_MESSAGE_SIZE

theorem bodyLength_of_none {headers : HeaderMap}
    (hget : headers.get HEADER_CONTENT_LENGTH = none) : bodyLength headers = .ok 0 := by
  rw [bodyLength, hget]

theorem bodyLength_of_get {headers : HeaderMap} {text : Str} {length : Nat}
    (hget : headers.get HEADER_CONTENT_LENGTH = some text)
    (hparse : parseUsize (trim text) = some length) (hle : length ≤ MAX_MESSAGE_SIZE) :
    bodyLength headers = .ok length := by
  simp only [bodyLength, hget, hparse]
  rw [if_neg (by omega)]

theorem bodyLength_of_displayNat {headers : HeaderMap} {length : Nat}
    (hget : headers.get HEADER_CONTENT_LENGTH = some (displayNat length))
    (hle : length ≤ MAX_MESSAGE_SIZE) : bodyLength headers = .ok length := by
  apply bodyLength_of_get hget ?_ hle
  rw [trimmed_displayNat]
  apply parseUnsigned_displayNat
  simp only [MAX_MESSAGE_SIZE] at hle
  omega

theorem bodyLength_error_iff {headers : HeaderMap} {text : Str}
    (hget : headers.get HEADER_CONTENT_LENGTH = some text) :
    (∃ e, bodyLength headers = .error e) ↔ ¬ ReadableLength text := by
  constructor
  · rintro ⟨e, herror⟩ ⟨length, hparse, hle⟩
    rw [bodyLength_of_get hget hparse hle] at herror
    cases herror
  · intro hread
    simp only [bodyLength, hget]
    cases hparse : parseUsize (trim text) with
    | none => exact ⟨_, rfl⟩
    | some length =>
        have hlarge : MAX_MESSAGE_SIZE < length :=
          not_le.mp fun hle ↦ hread ⟨length, hparse, hle⟩
        exact ⟨_, if_pos hlarge⟩

/-! ## Blocks -/

theorem map_trim_lines_intercalate {ls : List Str} (h : ∀ l ∈ ls, l ≠ [] ∧ '\n' ∉ l) :
    (lines (['\n'].intercalate ls)).map trim = ls.map trim := by
  have hnewline : ∀ l : Str, trim (stripLineEnding (l ++ ['\n'])) = trim l := by
    intro l
    rw [trim_stripLineEnding, trim_append_of_whitespace (by decide)]
  induction ls with
  | nil => rfl
  | cons l ls ih =>
      obtain ⟨hne, hmem⟩ := h l List.mem_cons_self
      cases ls with
      | nil =>
          rw [List.intercalate_singleton, lines, splitInclusive_of_not_mem hmem hne]
          simp [trim_stripLineEnding]
      | cons l' ls =>
          have hsplit : ['\n'].intercalate (l :: l' :: ls) =
              l ++ '\n' :: ['\n'].intercalate (l' :: ls) := by
            simp [List.intercalate_cons_cons]
          rw [hsplit, lines, splitInclusive_append hmem, List.map_cons, List.map_cons, hnewline,
            List.map_cons]
          exact congrArg (trim l :: ·) (ih fun m hm ↦ h m (List.mem_cons_of_mem _ hm))

theorem find_terminator {ls : List Str} (hne : ls ≠ []) (h : ∀ l ∈ ls, l ≠ [] ∧ '\n' ∉ l)
    (rest : Bytes) :
    Pattern.find HEADER_TERMINATOR
        (utf8Encode (['\n'].intercalate ls) ++ (HEADER_TERMINATOR ++ rest)) =
      some (utf8Encode (['\n'].intercalate ls)).length := by
  have hlines : utf8Encode (['\n'].intercalate ls) = [10].intercalate (ls.map utf8Encode) := by
    induction ls with
    | nil => exact absurd rfl hne
    | cons l ls ih =>
        cases ls with
        | nil => simp
        | cons l' ls =>
            rw [List.intercalate_cons_cons, List.map_cons, List.map_cons,
              List.intercalate_cons_cons, utf8Encode_append, utf8Encode_append,
              ih (by simp) fun m hm ↦ h m (List.mem_cons_of_mem _ hm)]
            rfl
  rw [hlines]
  refine Pattern.find_intercalate (by simpa using hne) ?_ rest
  intro l hl
  obtain ⟨line, hline, rfl⟩ := List.mem_map.mp hl
  refine ⟨utf8Encode_ne_nil (h line hline).1, ?_⟩
  intro hmem
  exact (h line hline).2 (newline_mem_utf8Encode.mp hmem)

section RawLines

variable {hs : List (Str × Str)}

theorem rawLine_clean (hnewline : ∀ h ∈ hs, '\n' ∉ h.1 ∧ '\n' ∉ h.2) :
    ∀ l ∈ hs.map rawLine, l ≠ [] ∧ '\n' ∉ l := by
  intro l hl
  obtain ⟨h, hmem, rfl⟩ := List.mem_map.mp hl
  obtain ⟨hname, htext⟩ := hnewline h hmem
  refine ⟨by simp [rawLine], ?_⟩
  simp [rawLine, hname, htext]

theorem parseHeaders_rawLines (hcolon : ∀ h ∈ hs, ':' ∉ h.1)
    (hnewline : ∀ h ∈ hs, '\n' ∉ h.1 ∧ '\n' ∉ h.2) :
    parseHeaders X (['\n'].intercalate (hs.map rawLine)) = .ok (readHeaders X hs) := by
  have htrim := map_trim_lines_intercalate (rawLine_clean hnewline)
  rw [parseHeaders, parseHeaderLines_congr htrim, parseHeaderLines_rawLine hcolon]
  rfl

/-- A block decodes to its headers if they name a type and no unreadable length. -/
theorem decodeHeaderBlock_rawLines (hcolon : ∀ h ∈ hs, ':' ∉ h.1)
    (hnewline : ∀ h ∈ hs, '\n' ∉ h.1 ∧ '\n' ∉ h.2) {contentType : Str} {length : Nat}
    (htype : (readHeaders X hs).get HEADER_CONTENT_TYPE = some contentType)
    (hlength : bodyLength (readHeaders X hs) = .ok length) :
    decodeHeaderBlock X (utf8Encode (['\n'].intercalate (hs.map rawLine))) =
      .ok (MessageType.fromContentType contentType, readHeaders X hs, length) := by
  simp only [decodeHeaderBlock, utf8Decode_utf8Encode, parseHeaders_rawLines hcolon hnewline, bind,
    Except.bind, htype, hlength]
  rfl

/-- A block is refused if its headers name no type, or a length that cannot be. -/
theorem decodeHeaderBlock_rawLines_eq_error (hcolon : ∀ h ∈ hs, ':' ∉ h.1)
    (hnewline : ∀ h ∈ hs, '\n' ∉ h.1 ∧ '\n' ∉ h.2)
    (hrefused : (readHeaders X hs).get HEADER_CONTENT_TYPE = none ∨
      ∃ e, bodyLength (readHeaders X hs) = .error e) :
    ∃ e, decodeHeaderBlock X (utf8Encode (['\n'].intercalate (hs.map rawLine))) = .error e := by
  simp only [decodeHeaderBlock, utf8Decode_utf8Encode, parseHeaders_rawLines hcolon hnewline, bind,
    Except.bind]
  rcases hrefused with hnone | ⟨e, herror⟩
  · rw [hnone]
    exact ⟨_, rfl⟩
  · cases (readHeaders X hs).get HEADER_CONTENT_TYPE with
    | none => exact ⟨_, rfl⟩
    | some contentType =>
        rw [herror]
        exact ⟨e, rfl⟩

/-- Where the parser cuts lines, a blank line and what stands behind it. -/
theorem find_rawLines (hne : hs ≠ []) (hnewline : ∀ h ∈ hs, '\n' ∉ h.1 ∧ '\n' ∉ h.2)
    (rest : Bytes) {b : Bytes}
    (hb : b = utf8Encode (hs.flatMap (fun h ↦ rawLine h ++ ['\n']) ++ ['\n']) ++ rest) :
    ∃ pos, Pattern.find HEADER_TERMINATOR b = some pos ∧
      b.take pos = utf8Encode (['\n'].intercalate (hs.map rawLine)) ∧
        b.drop (pos + 2) = rest := by
  have hlines : hs.map rawLine ≠ [] := by simpa using hne
  have hbytes : b =
      utf8Encode (['\n'].intercalate (hs.map rawLine)) ++ (HEADER_TERMINATOR ++ rest) := by
    have hflat := Pattern.flatMap_append_eq_intercalate (c := '\n') hlines
    rw [List.flatMap_map] at hflat
    rw [hb, hflat]
    simp [utf8Encode_cons, HEADER_TERMINATOR, String.utf8EncodeChar]
  refine ⟨_, hbytes ▸ find_terminator hlines (rawLine_clean hnewline) rest, ?_, ?_⟩
  · rw [hbytes, List.take_left]
  · rw [hbytes, ← List.drop_drop, List.drop_left]
    rfl

end RawLines

end FreeswitchEsl
