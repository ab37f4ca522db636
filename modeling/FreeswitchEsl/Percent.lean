import FreeswitchEsl.Crates

/-!
# Percent coding

The published percent-coding algorithm on bytes, as an instance of the crate
parameter.  It meets the laws that the results about the parser assume.
-/

namespace FreeswitchEsl

open Text

namespace Percent

def hexValue (b : UInt8) : Option Nat :=
  if 48 ≤ b ∧ b ≤ 57 then some (b.toNat - 48)
  else if 65 ≤ b ∧ b ≤ 70 then some (b.toNat - 55)
  else if 97 ≤ b ∧ b ≤ 102 then some (b.toNat - 87)
  else none

/-- A `%` before two hexadecimal digits stands for a byte; every other byte
stands for itself. -/
def decode : Bytes → Bytes
  | b :: h :: l :: rest =>
      if b = 37 then
        match hexValue h, hexValue l with
        | some x, some y => UInt8.ofNat (16 * x + y) :: decode rest
        | _, _ => b :: decode (h :: l :: rest)
      else b :: decode (h :: l :: rest)
  | short => short

/-- Somewhere a `%` stands before two hexadecimal digits. -/
def hasEscape : Bytes → Bool
  | b :: h :: l :: rest =>
      (b == 37 && (hexValue h).isSome && (hexValue l).isSome) || hasEscape (h :: l :: rest)
  | _ => false

def hexDigit (n : Nat) : Char := Char.ofNat (if n < 10 then 48 + n else 55 + n)

def encodeByte (n : Nat) : Str :=
  if (Char.ofNat n).isAlphanum && n < 128 then [Char.ofNat n]
  else ['%', hexDigit (n / 16), hexDigit (n % 16)]

def encode (b : Bytes) : Str := b.flatMap fun c ↦ encodeByte c.toNat

theorem decode_cons_of_ne {b : UInt8} (hb : b ≠ 37) (rest : Bytes) :
    decode (b :: rest) = b :: decode rest := by
  match rest with
  | [] => rfl
  | [_] => rfl
  | _ :: _ :: _ => rw [decode, if_neg hb]

theorem decode_of_notMem {b : Bytes} (h : (37 : UInt8) ∉ b) : decode b = b := by
  induction b with
  | nil => rfl
  | cons c b ih =>
      obtain ⟨hc, hb⟩ : 37 ≠ c ∧ (37 : UInt8) ∉ b := by simpa using h
      rw [decode_cons_of_ne (Ne.symm hc), ih hb]

theorem utf8Encode_encodeByte : ∀ n < 256,
    (utf8Encode (encodeByte n) = [UInt8.ofNat n] ∧ n ≠ 37) ∨
      ∃ h l x y, utf8Encode (encodeByte n) = [37, h, l] ∧ hexValue h = some x ∧
        hexValue l = some y ∧ 16 * x + y = n := by
  have hcheck : ∀ n < 256, (utf8Encode (encodeByte n) = [UInt8.ofNat n] ∧ n ≠ 37) ∨
      (utf8Encode (encodeByte n) = [37, UInt8.ofNat (hexDigit (n / 16)).toNat,
        UInt8.ofNat (hexDigit (n % 16)).toNat] ∧
        hexValue (UInt8.ofNat (hexDigit (n / 16)).toNat) = some (n / 16) ∧
        hexValue (UInt8.ofNat (hexDigit (n % 16)).toNat) = some (n % 16)) := by
    decide +kernel
  intro n hn
  rcases hcheck n hn with h | ⟨henc, hhi, hlo⟩
  · exact Or.inl h
  · exact Or.inr ⟨_, _, _, _, henc, hhi, hlo, by omega⟩

theorem decode_encodeByte (b : UInt8) (rest : Bytes) :
    decode (utf8Encode (encodeByte b.toNat) ++ rest) = b :: decode rest := by
  rcases utf8Encode_encodeByte b.toNat b.toNat_lt with ⟨henc, hne⟩ | ⟨h, l, x, y, henc, hx, hy, hn⟩
  · have hb : b ≠ 37 := fun h ↦ hne (by rw [h]; rfl)
    rw [henc, UInt8.ofNat_toNat, List.singleton_append, decode_cons_of_ne hb]
  · rw [henc]
    simp only [List.cons_append, List.nil_append, decode, if_true, hx, hy]
    rw [hn, UInt8.ofNat_toNat]

theorem decode_encode (b : Bytes) : decode (utf8Encode (encode b)) = b := by
  induction b with
  | nil => rfl
  | cons c b ih =>
      rw [encode, List.flatMap_cons, utf8Encode_append, decode_encodeByte]
      exact congrArg (c :: ·) ih

theorem mem_encodeByte (n : Nat) (hn : n < 256) :
    ∀ c ∈ encodeByte n, c.isAlphanum = true ∨ c = '%' := by
  have hcheck : ∀ n < 256, (encodeByte n).all (fun c ↦ c.isAlphanum || c == '%') = true := by
    decide +kernel
  intro c hc
  simpa using List.all_eq_true.mp (hcheck n hn) c hc

theorem length_decode_le (b : Bytes) : (decode b).length ≤ b.length := by
  fun_induction decode b with
  | case1 h l rest x hh y hl ih => simp; omega
  | case2 => simp_all
  | case3 => simp_all
  | case4 => simp

theorem decode_eq_self_iff (b : Bytes) : decode b = b ↔ hasEscape b = false := by
  fun_induction decode b with
  | case1 h l rest x y hy hx ih =>
      have hle := length_decode_le rest
      simp only [hasEscape, hy, hx, beq_self_eq_true, Option.isSome_some, Bool.and_true,
        Bool.true_or, Bool.true_eq_false, iff_false]
      intro h'
      have := congrArg List.length h'
      simp only [List.length_cons] at this
      omega
  | case2 h l rest hno ih =>
      have hdigits : ((hexValue h).isSome && (hexValue l).isSome) = false := by
        cases hx : hexValue h with
        | none => rfl
        | some x =>
            cases hy : hexValue l with
            | none => rfl
            | some y => exact (hno x y hx hy).elim
      rw [hasEscape, beq_self_eq_true, Bool.true_and, hdigits, Bool.false_or, ← ih]
      simp
  | case3 b h l rest hne ih => simp [hasEscape, hne, ih]
  | case4 b hshort =>
      have hnone : hasEscape b = false := by
        rw [hasEscape]
        exact hshort
      simp [hnone]

/-- Decoding takes no byte away that is neither `%` nor a hexadecimal digit. -/
theorem mem_decode {b : Bytes} {c : UInt8} (hc : hexValue c = none) (hne : c ≠ 37)
    (h : c ∈ b) : c ∈ decode b := by
  fun_induction decode b with
  | case1 h l rest x y hy hx ih =>
      have hrest : c ∈ rest := by
        rcases List.mem_cons.mp h with rfl | h
        · exact absurd rfl hne
        · rcases List.mem_cons.mp h with rfl | h
          · rw [hc] at hx
            cases hx
          · rcases List.mem_cons.mp h with rfl | h
            · rw [hc] at hy
              cases hy
            · exact h
      exact List.mem_cons_of_mem _ (ih hrest)
  | case2 _ _ _ _ ih | case3 _ _ _ _ _ ih =>
      rcases List.mem_cons.mp h with rfl | h
      · exact List.mem_cons_self
      · exact List.mem_cons_of_mem _ (ih h)
  | case4 => exact h

end Percent

/-- The documented behaviour of `percent_decode_str(s).decode_utf8()`: the bytes that
the escapes stand for, if they are UTF-8. -/
def Crates.DecodesPercent (X : Crates) : Prop :=
  ∀ s, X.percentDecodeUtf8 s = utf8Decode (Percent.decode (utf8Encode s))

theorem Crates.DecodesPercent.decode_plain {X : Crates} (hX : X.DecodesPercent) {s : Str}
    (hs : '%' ∉ s) : X.percentDecodeUtf8 s = some s := by
  have hbytes : (37 : UInt8) ∉ utf8Encode s :=
    fun h ↦ hs ((mem_utf8Encode_iff (c := '%') (by decide)).mp h)
  rw [hX, Percent.decode_of_notMem hbytes, utf8Decode_utf8Encode]

/-- Crates with the published percent coding.  The two decoders of structured
events refuse every document. -/
def Crates.percentOnly : Crates where
  percentDecodeUtf8 s := utf8Decode (Percent.decode (utf8Encode s))
  percentEncode s := Percent.encode (utf8Encode s)
  jsonFromStr _ := .error []
  jsonToString _ := []
  xmlRead _ := ⟨[], some []⟩

theorem Crates.percentOnly_decodesPercent : Crates.percentOnly.DecodesPercent := fun _ ↦ rfl

theorem Crates.percentOnly_percentLaws : Crates.percentOnly.PercentLaws where
  decode_encode s := by
    change utf8Decode (Percent.decode (utf8Encode (Percent.encode (utf8Encode s)))) = some s
    rw [Percent.decode_encode, utf8Decode_utf8Encode]
  mem_encode s c hc := by
    obtain ⟨b, -, hb⟩ := List.mem_flatMap.mp hc
    exact Percent.mem_encodeByte b.toNat b.toNat_lt c hb
  decode_plain _ hs := percentOnly_decodesPercent.decode_plain hs

end FreeswitchEsl
