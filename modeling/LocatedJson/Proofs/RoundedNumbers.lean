import LocatedJson.Proofs.LongestNumbers
import LocatedJson.Proofs.Rounding

/-! Numbers with a fraction or an exponent. Their digits mean a rational number exactly, and what is
read is that number correctly rounded. -/
namespace LocatedJson.Grammar

theorem digitsValue_append (digits digits' : List Byte) :
    digitsValue (digits ++ digits') =
      digitsValue digits * 10 ^ digits'.length + digitsValue digits' := by
  simp [digitsValue, Nat.ofDigits_append, Nat.mul_comm, Nat.add_comm]

namespace Decimal

def fractionDigits (n : Decimal) : List Byte := (n.fraction.map (·.bytes)).getD []

def power (n : Decimal) : ℤ :=
  match n.exponent with
  | none => 0
  | some e =>
    if e.sign = .minus then -(digitsValue e.digits.bytes : ℤ) else digitsValue e.digits.bytes

/-- The rational number that is written: the digits before the point count ones, those behind it
tenths, hundredths and so on. -/
def exact (n : Decimal) : ℚ :=
  signed n.sign.isNegative
    ((digitsValue n.whole.text + digitsValue n.fractionDigits / 10 ^ n.fractionDigits.length) *
      10 ^ n.power)

theorem writtenExponent_numeral (n : Decimal) : n.numeral.writtenExponent = n.power := by
  cases hexponent : n.exponent with
  | none => simp [Numeral.writtenExponent, numeral, power, hexponent]
  | some e =>
    simp only [Numeral.writtenExponent, numeral, power, hexponent, Option.map_some, decimalValue_eq]
    cases e.sign <;> rfl

theorem exact_eq (n : Decimal) :
    n.exact = signed n.sign.isNegative (n.numeral.significand * 10 ^ n.numeral.scale) := by
  have hscale : n.numeral.scale = n.power - (n.fractionDigits.length : ℕ) := by
    rw [Numeral.scale, writtenExponent_numeral]
    rfl
  have hsignificand : n.numeral.significand = digitsValue n.whole.text *
      10 ^ n.fractionDigits.length + digitsValue n.fractionDigits := by
    rw [← digitsValue_append, ← decimalValue_eq]
    rfl
  rw [exact, hscale, hsignificand, zpow_sub₀ (by norm_num), zpow_natCast]
  congr 1
  push_cast
  field_simp

theorem correctlyRounded_iff (n : Decimal) (x : Binary64) :
    x.CorrectlyRounded n.sign.isNegative n.exact ↔ x = n.numeral.toBinary64 := by
  rw [exact_eq, Binary64.correctlyRounded_iff_eq_ofDecimal]
  rfl

end Decimal

theorem Decimal.number_of_scan {o : Options} {l : Limits} {n : Decimal} {rest : List Byte}
    {x : Number} (h : Number.scan o l (n.text ++ rest) = .ok (x, n.text.length)) :
    x = n.numeral.toNumber := by
  obtain ⟨m, rest', hm, hbytes, hends⟩ := NumberLiteral.exists_of_scan h
  rw [hbytes, NumberLiteral.scan_of_endsBefore hm hends] at h
  obtain ⟨-, rfl, hlength⟩ := h
  have htext : n.text = m.text := (List.append_inj hbytes hlength).1
  have hlike : (NumberLiteral.decimal n).text ++ rest = m.text ++ rest' := hbytes
  rcases NumberLiteral.alike hlike with rfl | ⟨_, n', -, rfl⟩
  · rfl
  · exact congrArg Numeral.toNumber (numeral_congr htext).symm

end LocatedJson.Grammar

namespace LocatedJson.Reader

open Grammar

/-- A number with a fraction or an exponent that the options admit, that nothing goes on with and
that is within the limits is read. What is read is the one binary64 that its exact value is
correctly rounded to. -/
theorem readNumber_correctlyRounded {r : Reader} {pos : Nat} (hpos : r.pos = pos) {n : Decimal}
    (hfloat : n.fraction ≠ none ∨ n.exponent ≠ none) {rest : List Byte}
    (hbytes : r.contents.text.drop pos = n.text ++ rest) :
    (n.Admitted r.options → (Scalar.decimal n).EndsBefore rest →
      (Scalar.decimal n).Within r.limits →
        ∃ x, r.readNumber = .ok x (r.seek (pos + n.text.length : Nat))) ∧
    ∀ x, r.readNumber = .ok x (r.seek (pos + n.text.length : Nat)) →
      ∃ b, x = .float b ∧ ∀ y, y.CorrectlyRounded n.sign.isNegative n.exact ↔ y = b := by
  constructor
  · intro hadmitted hends hwithin
    have hscan := Number.scan_within hadmitted hends hwithin
    rw [← hbytes] at hscan
    exact ⟨_, (readNumber_eq_ok_iff hpos).2 ⟨_, hscan, rfl⟩⟩
  · intro x hx
    obtain ⟨k, hscan, hseek⟩ := (readNumber_eq_ok_iff hpos).1 hx
    have hk : ((pos + n.text.length : Nat) : Int) = (pos + k : Nat) := congrArg Reader.pos hseek
    obtain rfl : k = n.text.length := by omega
    rw [hbytes] at hscan
    refine ⟨n.numeral.toBinary64, ?_, n.correctlyRounded_iff⟩
    rw [Decimal.number_of_scan hscan, Decimal.toNumber_of_not_integer (not_and_or.2 hfloat)]

def tinyNumber : List Byte := [0x5b, 0x2d, 0x31, 0x65, 0x2d, 0x34, 0x30, 0x30]

theorem readNumber_tinyNumber :
    readNumber ⟨.ofBytes tinyNumber, {}, {}, 1⟩ =
      .ok (.float ⟨0x8000000000000000⟩) ⟨.ofBytes tinyNumber, {}, {}, (8 : Nat)⟩ := by
  let one : Digits := ⟨[0x31], nofun, by decide +kernel⟩
  let digits : Digits := ⟨[0x34, 0x30, 0x30], nofun, by decide +kernel⟩
  let n : Decimal :=
    ⟨.minus, .positive one nofun, none, some ⟨0x65, .inl rfl, .minus, digits⟩, nofun⟩
  have hbytes : (Contents.ofBytes tinyNumber).text.drop 1 = n.text ++ [] := rfl
  have hexponent : n.exponent ≠ none := Option.some_ne_none _
  obtain ⟨hread, hrounded⟩ :=
    readNumber_correctlyRounded (r := ⟨.ofBytes tinyNumber, {}, {}, 1⟩)
      (rfl : (1 : Int) = (1 : Nat)) (.inr hexponent) hbytes
  obtain ⟨x, hx⟩ := hread ⟨nofun, nofun⟩ nofun ⟨nofun, nofun⟩
  obtain ⟨b, rfl, hb⟩ := hrounded x hx
  have hsmall : |n.exact| ≤ 1 / 2 ^ 1075 := by
    have hpower : (2 : ℚ) ^ 1075 ≤ 10 ^ 400 := by
      exact_mod_cast (by decide +kernel : 2 ^ 1075 ≤ 10 ^ 400)
    have hmagnitude : |n.exact| = (10 ^ 400)⁻¹ := by
      rw [Decimal.exact, abs_signed, show n.power = -(400 : ℕ) from rfl, zpow_neg, zpow_natCast,
        show digitsValue n.whole.text = 1 from rfl, show digitsValue n.fractionDigits = 0 from rfl,
        Nat.cast_one, Nat.cast_zero, zero_div, add_zero, one_mul, abs_of_pos (by positivity)]
    rw [hmagnitude, one_div]
    exact inv_anti₀ (by positivity) hpower
  have hzero := ((hb b).2 rfl).underflow hsmall
  have hsign := ((hb b).2 rfl).sign
  obtain rfl : b = ⟨0x8000000000000000⟩ :=
    Binary64.eq_of_pattern_eq hsign ((Binary64.isZero_iff b).1 hzero)
  exact hx

end LocatedJson.Reader
