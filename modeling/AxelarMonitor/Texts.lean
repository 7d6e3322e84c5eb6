import AxelarMonitor.Expiry

/-!
The decimal and hexadecimal texts of the monitor, read in both directions.
Heights go into URLs in decimal and come back from headers; transaction ids are
compared by their hexadecimal texts.
-/

namespace AxelarMonitor

theorem decimalValue_eq (acc : Nat) (cs : List Char) :
    decimalValue acc cs = Nat.ofDigitChars 10 cs acc := by
  unfold decimalValue Nat.ofDigitChars
  congr 1
  funext acc c
  rw [Nat.mul_comm]

/-- A digit sequence that is read has only digits and its own value. -/
theorem parseDigits_ok {bound acc n : Nat} {cs : List Char}
    (h : parseDigits bound acc cs = .ok n) :
    (∀ c ∈ cs, c.isDigit = true) ∧ decimalValue acc cs = n := by
  induction cs generalizing acc with
  | nil =>
      cases h
      exact ⟨by simp, rfl⟩
  | cons c rest ih =>
      rw [parseDigits] at h
      split at h
      · next hdigit =>
        dsimp only at h
        split at h
        · obtain ⟨hdigits, hvalue⟩ := ih h
          exact ⟨List.forall_mem_cons.mpr ⟨hdigit, hdigits⟩, hvalue⟩
        · cases h
      · cases h

/-- The digits of a text, without a leading plus sign. -/
def unsigned (s : String) : List Char :=
  match s.toList with
  | '+' :: rest => rest
  | cs => cs

/-- The texts of a number: its digits, with any leading zeros, after one plus
sign or none. -/
structure DecimalText (s : String) (n : Nat) : Prop where
  nonempty : unsigned s ≠ []
  digits : ∀ c ∈ unsigned s, c.isDigit = true
  value : Nat.ofDigitChars 10 (unsigned s) 0 = n

theorem parseUnsigned_unsigned {bound : Nat} {s : String} (h : unsigned s ≠ []) :
    parseUnsigned bound s = parseDigits bound 0 (unsigned s) := by
  unfold unsigned at h ⊢
  unfold parseUnsigned
  generalize s.toList = cs at h ⊢
  cases cs with
  | nil => exact absurd rfl h
  | cons c rest =>
      by_cases hc : c = '+'
      · subst hc
        cases rest with
        | nil => exact absurd rfl h
        | cons d rest => rfl
      · simp [hc]

/-- Nothing is read off a text without digits. -/
theorem parseUnsigned_unsigned_nil {bound n : Nat} {s : String} (h : unsigned s = []) :
    parseUnsigned bound s ≠ .ok n := by
  unfold unsigned at h
  unfold parseUnsigned
  generalize s.toList = cs at h ⊢
  cases cs with
  | nil => simp
  | cons c rest =>
      by_cases hc : c = '+'
      · subst hc
        subst h
        simp [parseDigits]
      · simp [hc] at h

/-- Exactly the decimal texts of numbers below the bound are read. -/
theorem parseUnsigned_ok_iff {bound : Nat} (hbound : 0 < bound) {s : String} {n : Nat} :
    parseUnsigned bound s = .ok n ↔ n < bound ∧ DecimalText s n := by
  constructor
  · intro h
    have hnonempty : unsigned s ≠ [] := fun hnil => parseUnsigned_unsigned_nil hnil h
    rw [parseUnsigned_unsigned hnonempty] at h
    obtain ⟨hdigits, hvalue⟩ := parseDigits_ok h
    rw [parseDigits_eq hbound hdigits, hvalue] at h
    refine ⟨?_, hnonempty, hdigits, by rw [← decimalValue_eq, hvalue]⟩
    by_contra hlarge
    rw [if_neg hlarge] at h
    cases h
  · rintro ⟨hlt, hnonempty, hdigits, hvalue⟩
    rw [parseUnsigned_unsigned hnonempty, parseDigits_eq hbound hdigits, decimalValue_eq, hvalue,
      if_pos hlt]

theorem unsigned_toString (n : Nat) : unsigned (toString n) = Nat.toDigits 10 n := by
  have htext : (toString n).toList = Nat.toDigits 10 n := Nat.toList_repr
  unfold unsigned
  rw [htext]
  split
  · next rest hsign =>
    have hplus : '+' ∈ Nat.toDigits 10 n := hsign ▸ List.mem_cons_self
    exact absurd (Nat.isDigit_of_mem_toDigits (by decide) (by decide) hplus) (by decide)
  · rfl

theorem decimalText_toString (n : Nat) : DecimalText (toString n) n where
  nonempty := unsigned_toString n ▸ Nat.toDigits_ne_nil
  digits c hc := by
    rw [unsigned_toString] at hc
    exact Nat.isDigit_of_mem_toDigits (by decide) (by decide) hc
  value := by rw [unsigned_toString, Nat.ofDigitChars_ten_toDigits]

/-- What is written in decimal is read back as it is, or not at all. -/
theorem parseU64_toString {n m : Nat} (h : parseU64 (toString n) = .ok m) : m = n := by
  obtain ⟨-, htext⟩ := (parseUnsigned_ok_iff (Nat.two_pow_pos 64)).mp h
  exact htext.value.symm.trans (decimalText_toString n).value

theorem hexDigit_injective {m n : Nat} (hm : m < 16) (hn : n < 16)
    (h : hexDigit m = hexDigit n) : m = n := by
  have hall : ∀ m n : Fin 16, hexDigit m = hexDigit n → m = n := by decide +kernel
  exact congrArg Fin.val (hall ⟨m, hm⟩ ⟨n, hn⟩ h)

/-- Different bytes have different texts. -/
theorem hexEncode_injective {bytes bytes' : Bytes} (h : hexEncode bytes = hexEncode bytes') :
    bytes = bytes' := by
  have hchars := String.ofList_injective h
  clear h
  induction bytes generalizing bytes' with
  | nil =>
      cases bytes' with
      | nil => rfl
      | cons b rest => cases hchars
  | cons a rest ih =>
      cases bytes' with
      | nil => cases hchars
      | cons b rest' =>
          simp only [List.flatMap_cons, List.cons_append, List.nil_append, List.cons.injEq]
            at hchars
          obtain ⟨hhigh, hlow, hrest⟩ := hchars
          have ha := a.toNat_lt
          have hb := b.toNat_lt
          have hhigh' := hexDigit_injective (by omega) (by omega) hhigh
          have hlow' := hexDigit_injective (by omega) (by omega) hlow
          have hab : a = b := UInt8.toNat_inj.mp (by omega)
          rw [hab, ih hrest]

end AxelarMonitor
