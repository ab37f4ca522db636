import FreeswitchEsl.Protocol.HeaderBlock
import FreeswitchEsl.Protocol.Segmentation

/-!
# Reading back what a peer writes

A peer writes a message as header lines, a blank line and a body, with the
header values percent-encoded where needed.  The parser reads any sequence of
such frames back.
-/

namespace FreeswitchEsl

open Text Incremental

variable (X : Crates)

/-! ## Frames on the wire -/

/-- The text of a header value on the wire: percent-encoded, or as it is when
the parser neither decodes nor trims it. -/
inductive WrittenValue : Str → Str → Prop
  | encoded (value : Str) : WrittenValue value (X.percentEncode value)
  | raw {value : Str} : '%' ∉ value → '\n' ∉ value → Trimmed value → WrittenValue value value

def WrittenHeader (h : Str × Str) (line : Str) : Prop :=
  ∃ text, WrittenValue X h.2 text ∧ line = h.1 ++ ':' :: ' ' :: text

/-- A message as a peer has it: headers with distinct clean names, among them
`Content-Type` but not `Content-Length`, and possibly a body. -/
structure WireMessage where
  headers : List (Str × Str)
  body : Option Str
  contentType : Str
  nodup : (headers.map Prod.fst).Nodup
  name_clean : ∀ h ∈ headers, ':' ∉ h.1 ∧ '\n' ∉ h.1 ∧ Trimmed h.1
  contentLength_notMem : HEADER_CONTENT_LENGTH ∉ headers.map Prod.fst
  contentType_mem : (HEADER_CONTENT_TYPE, contentType) ∈ headers
  body_fits : ∀ b, body = some b → b ≠ [] ∧ (utf8Encode b).length ≤ MAX_MESSAGE_SIZE

namespace WireMessage

/-- The headers on the wire: `Content-Length` joins when there is a body. -/
def entries (m : WireMessage) : List (Str × Str) :=
  match m.body with
  | none => m.headers
  | some b => (HEADER_CONTENT_LENGTH, displayNat (utf8Encode b).length) :: m.headers

def decoded (m : WireMessage) : EslMessage :=
  ⟨MessageType.fromContentType m.contentType, HeaderMap.ofList m.entries, m.body⟩

/-- `bytes` is the message on the wire, with the header lines in any order. -/
def Writes (m : WireMessage) (bytes : Bytes) : Prop :=
  ∃ entries lines, List.Perm entries m.entries ∧
    List.Forall₂ (WrittenHeader X) entries lines ∧
      bytes = utf8Encode (lines.flatMap (fun l ↦ l ++ ['\n']) ++ '\n' :: m.body.getD [])

theorem nodup_entries (m : WireMessage) : (m.entries.map Prod.fst).Nodup := by
  unfold entries
  cases m.body with
  | none => exact m.nodup
  | some b => exact List.nodup_cons.mpr ⟨m.contentLength_notMem, m.nodup⟩

theorem entries_clean (m : WireMessage) :
    ∀ h ∈ m.entries, ':' ∉ h.1 ∧ '\n' ∉ h.1 ∧ Trimmed h.1 := by
  unfold entries
  cases m.body with
  | none => exact m.name_clean
  | some b =>
      intro h hmem
      rcases List.mem_cons.mp hmem with rfl | hmem
      · change ':' ∉ HEADER_CONTENT_LENGTH ∧ '\n' ∉ HEADER_CONTENT_LENGTH ∧
          Trimmed HEADER_CONTENT_LENGTH
        decide
      · exact m.name_clean h hmem

theorem contentType_mem_entries (m : WireMessage) :
    (HEADER_CONTENT_TYPE, m.contentType) ∈ m.entries := by
  unfold entries
  cases m.body with
  | none => exact m.contentType_mem
  | some b => exact List.mem_cons_of_mem _ m.contentType_mem

theorem bodyLength_entries (m : WireMessage) :
    bodyLength (HeaderMap.ofList m.entries) = .ok (utf8Encode (m.body.getD [])).length := by
  cases hbody : m.body with
  | none =>
      have hget : (HeaderMap.ofList m.entries).get HEADER_CONTENT_LENGTH = none := by
        apply HeaderMap.get_ofList_of_notMem
        simpa [entries, hbody] using m.contentLength_notMem
      rw [bodyLength, hget]
      rfl
  | some b =>
      have hmem : (HEADER_CONTENT_LENGTH, displayNat (utf8Encode b).length) ∈ m.entries := by
        simp [entries, hbody]
      apply bodyLength_of_displayNat ?_ (m.body_fits b hbody).2
      exact HeaderMap.get_ofList_of_mem m.nodup_entries hmem

end WireMessage

/-! ## Header lines -/

variable {X}

theorem WrittenValue.clean (hX : X.PercentLaws) {value text : Str}
    (h : WrittenValue X value text) : '\n' ∉ text ∧ Trimmed text := by
  cases h with
  | raw _ hnewline htrim => exact ⟨hnewline, htrim⟩
  | encoded =>
      have hchar : ∀ c ∈ X.percentEncode value, isWhitespace c = false := by
        intro c hc
        rcases hX.mem_encode value c hc with hc | rfl
        · exact isWhitespace_of_isAlphanum hc
        · decide
      refine ⟨fun hmem ↦ ?_, trimmed_of_forall hchar⟩
      exact absurd (hchar '\n' hmem) (by decide)

theorem WrittenValue.decode (hX : X.PercentLaws) {value text : Str}
    (h : WrittenValue X value text) : X.percentDecodeUtf8 text = some value := by
  cases h with
  | raw hpercent _ _ => exact hX.decode_plain value hpercent
  | encoded => exact hX.decode_encode value

theorem readHeader_of_written (hX : X.PercentLaws) {h : Str × Str} {text : Str}
    (hname : Trimmed h.1) (hvalue : WrittenValue X h.2 text) :
    readHeader X (h.1, ' ' :: text) = h := by
  have htext : trim (' ' :: text) = text := by
    rw [trim_cons_of_whitespace (by decide)]
    exact (hvalue.clean hX).2
  rw [readHeader, htext, hvalue.decode hX, hname]
  rfl

theorem parseHeaderLine_of_written (hX : X.PercentLaws) {h : Str × Str} {line : Str}
    (hcolon : ':' ∉ h.1) (hname : Trimmed h.1) (hline : WrittenHeader X h line) :
    trim line ≠ [] ∧ parseHeaderLine X (trim line) = some h := by
  obtain ⟨text, hvalue, rfl⟩ := hline
  obtain ⟨hne, hparse⟩ := parseHeaderLine_rawLine X (h := (h.1, ' ' :: text)) hcolon
  exact ⟨hne, hparse.trans (congrArg some (readHeader_of_written hX hname hvalue))⟩

/-! ## Frames -/

theorem WrittenHeader.clean (hX : X.PercentLaws) {h : Str × Str} {line : Str}
    (hnewline : '\n' ∉ h.1) (hline : WrittenHeader X h line) : line ≠ [] ∧ '\n' ∉ line := by
  obtain ⟨text, hvalue, rfl⟩ := hline
  have htext := (hvalue.clean hX).1
  refine ⟨by simp, ?_⟩
  simp [hnewline, htext]

theorem WrittenHeader.clean_of_mem (hX : X.PercentLaws) {entries : List (Str × Str)}
    {ls : List Str} (hnames : ∀ h ∈ entries, '\n' ∉ h.1)
    (hls : List.Forall₂ (WrittenHeader X) entries ls) : ∀ l ∈ ls, l ≠ [] ∧ '\n' ∉ l := by
  induction hls with
  | nil => simp
  | cons hline _ ih =>
      intro l hl
      rcases List.mem_cons.mp hl with rfl | hl
      · exact hline.clean hX (hnames _ List.mem_cons_self)
      · exact ih (fun h hmem ↦ hnames h (List.mem_cons_of_mem _ hmem)) l hl

/-- Written lines, cut at their colons. -/
theorem exists_rawLines_of_written (hX : X.PercentLaws) {entries : List (Str × Str)} {ls : List Str}
    (hclean : ∀ h ∈ entries, ':' ∉ h.1 ∧ '\n' ∉ h.1 ∧ Trimmed h.1)
    (hls : List.Forall₂ (WrittenHeader X) entries ls) :
    ∃ hs : List (Str × Str), ls = hs.map rawLine ∧ hs.map (readHeader X) = entries ∧
      (∀ h ∈ hs, ':' ∉ h.1) ∧
      ∀ h ∈ hs, '\n' ∉ h.1 ∧ '\n' ∉ h.2 := by
  induction hls with
  | nil => exact ⟨[], rfl, rfl, by simp, by simp⟩
  | @cons h l entries ls hline _ ih =>
      obtain ⟨hcolon, hnewline, htrim⟩ := hclean h List.mem_cons_self
      obtain ⟨hs, rfl, rfl, hcolons, hnewlines⟩ :=
        ih fun h hmem ↦ hclean h (List.mem_cons_of_mem _ hmem)
      obtain ⟨text, hvalue, rfl⟩ := hline
      refine ⟨(h.1, ' ' :: text) :: hs, rfl, ?_, ?_, ?_⟩
      · rw [List.map_cons, readHeader_of_written hX htrim hvalue]
      · exact List.forall_mem_cons.mpr ⟨hcolon, hcolons⟩
      · refine List.forall_mem_cons.mpr ⟨⟨hnewline, ?_⟩, hnewlines⟩
        simpa using (hvalue.clean hX).1

/-- One written message is framed, whatever stands behind it. -/
theorem frame_of_writes (hX : X.PercentLaws) {m : WireMessage} {w : Bytes} (hw : m.Writes X w)
    (rest : Bytes) :
    frame X .waitingForHeaders (w ++ rest) = .emit m.decoded .waitingForHeaders rest := by
  obtain ⟨entries, ls, hperm, hls, rfl⟩ := hw
  obtain ⟨hs, rfl, rfl, hcolon, hnewline⟩ := exists_rawLines_of_written hX
    (fun h hmem ↦ m.entries_clean h (hperm.mem_iff.mp hmem)) hls
  have hne : hs ≠ [] := by
    rintro rfl
    have hmem := hperm.mem_iff.mpr m.contentType_mem_entries
    simp at hmem
  have hheaders : readHeaders X hs = HeaderMap.ofList m.entries :=
    HeaderMap.ofList_perm m.nodup_entries hperm
  have htype : (readHeaders X hs).get HEADER_CONTENT_TYPE = some m.contentType := by
    rw [hheaders]
    exact HeaderMap.get_ofList_of_mem m.nodup_entries m.contentType_mem_entries
  have hlength : bodyLength (readHeaders X hs) = .ok (utf8Encode (m.body.getD [])).length := by
    rw [hheaders]
    exact m.bodyLength_entries
  have hblock := decodeHeaderBlock_rawLines hcolon hnewline htype hlength
  obtain ⟨pos, hpos, htake, hdrop⟩ := find_rawLines hne hnewline
    (utf8Encode (m.body.getD []) ++ rest)
    (b := utf8Encode ((hs.map rawLine).flatMap (fun l ↦ l ++ ['\n']) ++
      '\n' :: m.body.getD []) ++ rest)
    (by simp [List.flatMap_map, utf8Encode_cons])
  simp only [frame, hpos, htake, hdrop, hblock, hheaders]
  cases hbody : m.body with
  | none => simp [WireMessage.decoded, hbody]
  | some b =>
      have hpos : 0 < (utf8Encode b).length :=
        List.length_pos_of_ne_nil (utf8Encode_ne_nil (m.body_fits b hbody).1)
      simp only [Option.getD_some, if_pos hpos, frameBody]
      rw [if_pos (by simp), List.take_left, List.drop_left, decodeBody, utf8Decode_utf8Encode]
      simp [WireMessage.decoded, hbody]

/-! ## Sequences of frames -/

/-- A sequence of written messages is read back as it is, in whatever chunks it
arrives, and leaves nothing behind. -/
theorem readerLoop_of_writes (hX : X.PercentLaws) {ms : List WireMessage} {ws : List Bytes}
    (hws : List.Forall₂ (fun m w ↦ m.Writes X w) ms ws) {chunks : List Bytes}
    (hchunks : chunks.flatten = ws.flatten)
    (hfits : ∀ e, (readerLoop X EslParser.new chunks).2 ≠ .bufferError e) :
    ∃ p, readerLoop X EslParser.new chunks = (ms.map WireMessage.decoded, .waiting p) ∧
      p.state = .waitingForHeaders ∧ p.buffer.data = [] := by
  obtain ⟨stop, hstop⟩ := ReadEnd.exists_stop hfits
  have hdrain := readerLoop_eq_framing X EslParser.new chunks hstop
  have hframes : (framing X).drain .waitingForHeaders (ws.flatten ++ []) =
      (ms.map WireMessage.decoded, .waiting .waitingForHeaders []) := by
    have hws' : List.Forall₂ (fun e w ↦ ∃ m : WireMessage, m.decoded = e ∧ m.Writes X w)
        (ms.map WireMessage.decoded) ws := by
      rw [List.forall₂_map_left_iff]
      exact hws.imp fun m w hw ↦ ⟨m, rfl, hw⟩
    rw [(framing X).drain_flatten _ hws']
    · have hmore : (framing X).step .waitingForHeaders [] = .more .waitingForHeaders [] := rfl
      rw [(framing X).drain_of_more hmore, List.append_nil]
    · rintro e w ⟨m, rfl, hw⟩ rest
      exact frame_of_writes hX hw rest
  have hnew : EslParser.new.buffer.data ++ chunks.flatten = ws.flatten ++ [] := by
    rw [hchunks, List.append_nil]
    rfl
  rw [hnew] at hdrain
  have hresult := hdrain.symm.trans hframes
  obtain ⟨hmessages, rfl⟩ := Prod.mk.inj hresult
  cases hend : (readerLoop X EslParser.new chunks).2 with
  | bufferError e => exact absurd hend (hfits e)
  | parseError e =>
      rw [hend] at hstop
      cases Option.some.inj hstop
  | waiting p =>
      rw [hend] at hstop
      obtain ⟨hstate, hdata⟩ := Stop.waiting.inj (Option.some.inj hstop)
      exact ⟨p, Prod.ext hmessages hend, hstate, hdata⟩

/-- An `api/response` with a blank line in its body. -/
def WireMessage.apiResponse : WireMessage where
  headers := [(HEADER_CONTENT_TYPE, CONTENT_TYPE_API_RESPONSE)]
  body := some "up\n\n".toList
  contentType := CONTENT_TYPE_API_RESPONSE
  nodup := by decide
  name_clean := by decide
  contentLength_notMem := by decide
  contentType_mem := by decide
  body_fits := by
    rintro b hb
    obtain rfl := Option.some.inj hb
    decide

theorem readerLoop_of_writes_apiResponse :
    let w := utf8Encode "Content-Type: api%2Fresponse\nContent-Length: 4\n\nup\n\n".toList
    ∃ p, readerLoop .percentOnly EslParser.new [w, w] =
        ([WireMessage.apiResponse, WireMessage.apiResponse].map WireMessage.decoded,
          .waiting p) ∧
      p.state = .waitingForHeaders ∧ p.buffer.data = [] := by
  intro w
  have hw : WireMessage.apiResponse.Writes .percentOnly w := by
    refine ⟨[(HEADER_CONTENT_TYPE, CONTENT_TYPE_API_RESPONSE), (HEADER_CONTENT_LENGTH, ['4'])],
      ["Content-Type: api%2Fresponse".toList, "Content-Length: 4".toList], ?_, ?_, by decide⟩
    · exact List.Perm.swap _ _ _
    · refine .cons ⟨_, .encoded _, by decide +kernel⟩ (.cons ⟨_, .raw ?_ ?_ ?_, rfl⟩ .nil)
      all_goals decide
  exact readerLoop_of_writes Crates.percentOnly_percentLaws (.cons hw (.cons hw .nil)) rfl
    (ReadEnd.ne_bufferError (by decide +kernel))

end FreeswitchEsl
