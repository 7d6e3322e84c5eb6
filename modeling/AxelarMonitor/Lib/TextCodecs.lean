import Mathlib.Data.List.Basic

/-!
The UTF-8 bytes of a text, and base64 with padding: a decoder that accepts
exactly the texts the encoder writes, with no stray bits under the padding and no
padding left out.
-/

namespace Utf8

def bytes (text : String) : List UInt8 := text.toUTF8.data.toList

def decode (input : List UInt8) : Option String := String.fromUTF8? ⟨input.toArray⟩

theorem decode_eq_some_iff {input : List UInt8} {text : String} :
    decode input = some text ↔ input = bytes text := by
  unfold decode String.fromUTF8?
  constructor
  · intro h
    split at h
    · cases h
      rfl
    · cases h
  · rintro rfl
    have hbytes : ByteArray.mk (bytes text).toArray = text.toByteArray := rfl
    rw [hbytes, dif_pos text.isValidUTF8]
    rfl

/-- No text starts with a continuation byte. -/
theorem isFirstByte_of_bytes {text : String} {b : UInt8} {rest : List UInt8}
    (h : bytes text = b :: rest) : b.IsUTF8FirstByte := by
  have hbytes : text.toByteArray = ⟨(b :: rest).toArray⟩ := by
    rw [← h]
    rfl
  have hvalid := text.isValidUTF8
  rw [hbytes] at hvalid
  exact hvalid.isUTF8FirstByte_getElem_zero (Nat.succ_pos _)

end Utf8

namespace Base64

def alphabet : List Char :=
  ['A', 'B', 'C', 'D', 'E', 'F', 'G', 'H', 'I', 'J', 'K', 'L', 'M', 'N', 'O', 'P',
   'Q', 'R', 'S', 'T', 'U', 'V', 'W', 'X', 'Y', 'Z', 'a', 'b', 'c', 'd', 'e', 'f',
   'g', 'h', 'i', 'j', 'k', 'l', 'm', 'n', 'o', 'p', 'q', 'r', 's', 't', 'u', 'v',
   'w', 'x', 'y', 'z', '0', '1', '2', '3', '4', '5', '6', '7', '8', '9', '+', '/']

def pad : Char := '='

/-- The digit of a six-bit value. -/
def digit (n : Nat) : Char := alphabet.getD n pad

def value (c : Char) : Nat := alphabet.idxOf c

theorem digit_mem {n : Nat} (h : n < 64) : digit n ∈ alphabet := by
  have hall : ∀ n : Fin 64, digit n ∈ alphabet := by decide +kernel
  exact hall ⟨n, h⟩

theorem digit_ne_pad {n : Nat} (h : n < 64) : digit n ≠ pad := by
  intro heq
  exact absurd (heq ▸ digit_mem h) (by decide +kernel)

theorem value_digit {n : Nat} (h : n < 64) : value (digit n) = n := by
  have hall : ∀ n : Fin 64, value (digit n) = n := by decide +kernel
  exact hall ⟨n, h⟩

def encode : List UInt8 → List Char
  | [] => []
  | [a] => [digit (a.toNat / 4), digit (a.toNat % 4 * 16), pad, pad]
  | [a, b] =>
      [digit (a.toNat / 4), digit (a.toNat % 4 * 16 + b.toNat / 16),
        digit (b.toNat % 16 * 4), pad]
  | a :: b :: c :: rest =>
      digit (a.toNat / 4) :: digit (a.toNat % 4 * 16 + b.toNat / 16) ::
        digit (b.toNat % 16 * 4 + c.toNat / 64) :: digit (c.toNat % 64) :: encode rest

/-- The bytes of four digits at a time, without any check. -/
def decodeGroups : List Char → List UInt8
  | w :: x :: y :: z :: rest =>
      let a := UInt8.ofNat (value w * 4 + value x / 16)
      let b := UInt8.ofNat (value x % 16 * 16 + value y / 4)
      let c := UInt8.ofNat (value y % 4 * 64 + value z)
      if z ≠ pad then a :: b :: c :: decodeGroups rest
      else if y ≠ pad then [a, b]
      else [a]
  | _ => []

def decode (text : List Char) : Option (List UInt8) :=
  if encode (decodeGroups text) = text then some (decodeGroups text) else none

theorem mem_encode {bytes : List UInt8} : ∀ c ∈ encode bytes, c ∈ alphabet ∨ c = pad := by
  fun_induction encode bytes with
  | case1 => simp
  | case2 a =>
      have ha := a.toNat_lt
      simp only [List.forall_mem_cons, or_true, true_and]
      exact ⟨.inl (digit_mem (by omega)), .inl (digit_mem (by omega)), by simp⟩
  | case3 a b =>
      have ha := a.toNat_lt
      have hb := b.toNat_lt
      simp only [List.forall_mem_cons, or_true, true_and]
      exact ⟨.inl (digit_mem (by omega)), .inl (digit_mem (by omega)),
        .inl (digit_mem (by omega)), by simp⟩
  | case4 a b c rest ih =>
      have ha := a.toNat_lt
      have hb := b.toNat_lt
      have hc := c.toNat_lt
      simp only [List.forall_mem_cons]
      exact ⟨.inl (digit_mem (by omega)), .inl (digit_mem (by omega)),
        .inl (digit_mem (by omega)), .inl (digit_mem (by omega)), ih⟩

theorem ofNat_eq {n : Nat} {b : UInt8} (h : n = b.toNat) : UInt8.ofNat n = b := by
  rw [h, UInt8.ofNat_toNat]

theorem decodeGroups_encode (bytes : List UInt8) : decodeGroups (encode bytes) = bytes := by
  fun_induction encode bytes with
  | case1 => rfl
  | case2 a =>
      have ha := a.toNat_lt
      have hfirst : UInt8.ofNat (a.toNat / 4 * 4 + a.toNat % 4 * 16 / 16) = a :=
        ofNat_eq (by omega)
      simp (disch := omega) only [decodeGroups, value_digit, hfirst]
      simp
  | case3 a b =>
      have ha := a.toNat_lt
      have hb := b.toNat_lt
      have hfirst : UInt8.ofNat (a.toNat / 4 * 4 + (a.toNat % 4 * 16 + b.toNat / 16) / 16) = a :=
        ofNat_eq (by omega)
      have hsecond : UInt8.ofNat ((a.toNat % 4 * 16 + b.toNat / 16) % 16 * 16 +
          b.toNat % 16 * 4 / 4) = b :=
        ofNat_eq (by omega)
      have hpad : digit (b.toNat % 16 * 4) ≠ pad := digit_ne_pad (by omega)
      simp (disch := omega) only [decodeGroups, value_digit, hfirst, hsecond]
      simp [hpad]
  | case4 a b c rest ih =>
      have ha := a.toNat_lt
      have hb := b.toNat_lt
      have hc := c.toNat_lt
      have hfirst : UInt8.ofNat (a.toNat / 4 * 4 + (a.toNat % 4 * 16 + b.toNat / 16) / 16) = a :=
        ofNat_eq (by omega)
      have hsecond : UInt8.ofNat ((a.toNat % 4 * 16 + b.toNat / 16) % 16 * 16 +
          (b.toNat % 16 * 4 + c.toNat / 64) / 4) = b :=
        ofNat_eq (by omega)
      have hthird : UInt8.ofNat ((b.toNat % 16 * 4 + c.toNat / 64) % 4 * 64 + c.toNat % 64) = c :=
        ofNat_eq (by omega)
      have hpad : digit (c.toNat % 64) ≠ pad := digit_ne_pad (by omega)
      simp (disch := omega) only [decodeGroups, value_digit, hfirst, hsecond, hthird]
      simp [hpad, ih]

/-- The decoder inverts the encoder and accepts nothing else. -/
theorem decode_eq_some_iff {text : List Char} {bytes : List UInt8} :
    decode text = some bytes ↔ text = encode bytes := by
  unfold decode
  constructor
  · intro h
    split at h
    · next hcanonical =>
      rw [← Option.some.inj h, hcanonical]
    · cases h
  · rintro rfl
    rw [decodeGroups_encode, if_pos rfl]

example : encode [102, 111, 111, 98] = "Zm9vYg==".toList := by decide +kernel

/-- Bits under the padding are not read over. -/
example : decode "Zm9vYh==".toList = none := by decide +kernel

end Base64
