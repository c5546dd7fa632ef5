import LocatedJson.Proofs.Reading

/-! The longest number. Among the numbers that the bytes begin with there is a longest one, if there
is any. Reading from left to right takes it or, where what follows it begins a part that it lacks,
nothing. -/
namespace LocatedJson.Grammar

/-- The number that decimal digits write: the last counts ones, the one before it tens. -/
def digitsValue (digits : List Byte) : ℕ :=
  Nat.ofDigits 10 (digits.reverse.map fun b => b.toNat - 0x30)

theorem decimalValue_eq (digits : List Byte) : Byte.decimalValue digits = digitsValue digits := by
  rw [Byte.decimalValue, digitsValue, Nat.ofDigits_eq_foldr, List.foldr_map, List.foldr_reverse]
  congr 1
  funext n b
  simp [Nat.add_comm]

namespace Decimal

def integer (n : Decimal) : ℤ :=
  if n.sign = .minus then -(digitsValue n.whole.text : ℤ) else digitsValue n.whole.text

theorem toNumber_of_integer {n : Decimal} (hfraction : n.fraction = none)
    (hexponent : n.exponent = none) : n.numeral.toNumber = .int n.integer := by
  have hvalue : n.numeral.significand = digitsValue n.whole.text := by
    simp [Numeral.significand, numeral, hfraction, decimalValue_eq]
  rw [Numeral.toNumber, if_pos ((isInteger_numeral n).2 ⟨hfraction, hexponent⟩), hvalue, integer]
  cases hsign : n.sign <;> simp [numeral, Sign.isNegative, hsign]

theorem toNumber_of_not_integer {n : Decimal} (h : ¬ (n.fraction = none ∧ n.exponent = none)) :
    n.numeral.toNumber = .float n.numeral.toBinary64 :=
  if_neg (mt (isInteger_numeral n).1 h)

theorem scan_text {o : Options} {n : Decimal} (hn : n.Admitted o) :
    Numeral.scan o n.text = .ok (n.numeral, n.text.length) := by
  rw [← List.append_nil n.text, Numeral.scan_decimal hn (by simp), List.append_nil]

theorem numeral_congr {n n' : Decimal} (h : n.text = n'.text) : n.numeral = n'.numeral := by
  have hadmitted (n : Decimal) : n.Admitted .relaxed := ⟨fun _ => rfl, fun _ => rfl⟩
  have hscan := scan_text (hadmitted n)
  rw [h, scan_text (hadmitted n')] at hscan
  exact (Prod.mk.inj (Except.ok.inj hscan)).1.symm

theorem continuedBy_congr {n n' : Decimal} (h : n.text = n'.text) (b : Byte) :
    n.continuedBy b = n'.continuedBy b := by
  have hnumeral := numeral_congr h
  have hfraction := congrArg (fun numeral => numeral.fraction.isNone) hnumeral
  have hexponent := congrArg (fun numeral => numeral.exponent.isNone) hnumeral
  simp only [numeral, Option.isNone_map] at hfraction hexponent
  rw [continuedBy, continuedBy, hfraction, hexponent]

/-- A number that nothing goes on with is not the front of a longer one. -/
theorem length_le_of_stops {o : Options} {n n' : Decimal} (hn : n.Admitted o) (hn' : n'.Admitted o)
    {rest : List Byte} (hrest : ∀ b ∈ rest.head?, n.continuedBy b = false)
    (h : n'.text <+: n.text ++ rest) : n'.text.length ≤ n.text.length := by
  by_contra hlonger
  obtain ⟨tail, htail⟩ : n.text <+: n'.text :=
    List.prefix_of_prefix_length_le (List.prefix_append _ _) h (by omega)
  have hstop : ∀ b ∈ tail.head?, n.continuedBy b = false := by
    intro b hb
    rw [← htail, List.prefix_append_right_inj] at h
    obtain ⟨more, rfl⟩ := h
    exact hrest b (List.mem_head?_append_of_mem_head? hb)
  -- the longer text would be read as either of the two
  have hscan := Numeral.scan_decimal hn hstop
  rw [htail, scan_text hn'] at hscan
  have hlength := (Prod.mk.inj (Except.ok.inj hscan)).2
  omega

theorem exists_extended {n : Decimal} {b : Byte} (hb : b.isDigit = true)
    (h : ¬ (n.whole = .zero ∧ n.fraction = none ∧ n.exponent = none)) :
    ∃ n' : Decimal, n'.text = n.text ++ [b] ∧ n'.sign = n.sign ∧
      (n'.whole = .absent → n.whole = .absent) := by
  let add (d : Digits) : Digits :=
    ⟨d.bytes ++ [b], by simp,
      List.forall_mem_append.2 ⟨d.range, List.forall_mem_singleton.2 (isDigit_iff.1 hb)⟩⟩
  cases hexponent : n.exponent with
  | some e =>
    refine ⟨{ n with exponent := some { e with digits := add e.digits } }, ?_, rfl, id⟩
    simp [text, hexponent, exponentText, Exponent.text, add]
  | none =>
    cases hfraction : n.fraction with
    | some d =>
      refine ⟨{ n with fraction := some (add d), mantissa := by simp }, ?_, rfl, id⟩
      simp [text, hexponent, hfraction, exponentText, fractionText, add]
    | none =>
      cases hwhole : n.whole with
      | absent => exact absurd hfraction (n.mantissa hwhole)
      | zero => exact absurd ⟨hwhole, hfraction, hexponent⟩ h
      | positive d hleading =>
        refine ⟨{ n with whole := .positive (add d) ?_, mantissa := by simp }, ?_, rfl, by simp⟩
        · rwa [show (add d).bytes = d.bytes ++ [b] from rfl, d.head?_append]
        · simp [text, hexponent, hfraction, hwhole, exponentText, fractionText, Whole.text, add]

end Decimal

/-- A number as it is written: with digits or with letters. -/
inductive NumberLiteral where
  | special (s : SpecialNumber)
  | decimal (n : Decimal)

namespace NumberLiteral

def scalar : NumberLiteral → Scalar
  | special s => .special s
  | decimal n => .decimal n

def text (m : NumberLiteral) : List Byte := m.scalar.text

def Admitted (o : Options) (m : NumberLiteral) : Prop := m.scalar.Admitted o .paired

def IsInteger : NumberLiteral → Prop
  | special _ => False
  | decimal n => n.fraction = none ∧ n.exponent = none

def wholeDigits : NumberLiteral → List Byte
  | special _ => []
  | decimal n => n.whole.text

/-- The byte begins a part that the number does not have: more digits before the point than a
lone zero, a fraction, or an exponent. -/
def Lacks (b : Byte) : NumberLiteral → Prop
  | special _ => False
  | decimal n =>
    (b.isDigit = true ∧ n.whole = .zero ∧ n.fraction = none ∧ n.exponent = none) ∨
      (b = Byte.dot ∧ n.fraction = none ∧ n.exponent = none) ∨
      (b.isExponentMark = true ∧ n.exponent = none)

def integer : NumberLiteral → ℤ
  | special _ => 0
  | decimal n => n.integer

def number : NumberLiteral → Number
  | special s => s.toNumber
  | decimal n => n.numeral.toNumber

theorem number_eq_int_iff (m : NumberLiteral) (i : ℤ) :
    m.number = .int i ↔ m.IsInteger ∧ i = m.integer := by
  cases m with
  | special s => cases s <;> simp [number, IsInteger, SpecialNumber.toNumber]
  | decimal n =>
    by_cases h : n.fraction = none ∧ n.exponent = none
    · simp [number, Decimal.toNumber_of_integer h.1 h.2, IsInteger, integer, h, eq_comm]
    · simp [number, Decimal.toNumber_of_not_integer h, IsInteger, h]

theorem within_iff {l : Limits} (h : l.numberLength = none) (m : NumberLiteral) :
    m.scalar.Within l ↔ ¬ (m.IsInteger ∧ 4300 < m.wholeDigits.length) := by
  cases m with
  | special s => simp [scalar, Scalar.Within, IsInteger]
  | decimal n => simp [scalar, Scalar.Within, IsInteger, wholeDigits, h]

/-- The longest of the numbers that the bytes begin with. -/
structure Longest (o : Options) (bytes : List Byte) (m : NumberLiteral) : Prop where
  admitted : m.Admitted o
  front : m.text <+: bytes
  longest : ∀ m' : NumberLiteral, m'.Admitted o → m'.text <+: bytes →
    m'.text.length ≤ m.text.length

theorem alike {m m' : NumberLiteral} {rest rest' : List Byte}
    (h : m.text ++ rest = m'.text ++ rest') :
    m = m' ∨ ∃ n n', m = decimal n ∧ m' = decimal n' := by
  have hfront := congrArg SpecialNumber.ofFront? h
  cases m with
  | special s =>
    cases m' with
    | special s' =>
      have hsame := (SpecialNumber.ofFront?_spelling s rest).symm.trans
        (hfront.trans (SpecialNumber.ofFront?_spelling s' rest'))
      exact .inl (congrArg special (Option.some.inj hsame))
    | decimal n' =>
      cases (SpecialNumber.ofFront?_spelling s rest).symm.trans
        (hfront.trans (SpecialNumber.ofFront?_decimal n' rest'))
  | decimal n =>
    cases m' with
    | special s' =>
      cases (SpecialNumber.ofFront?_decimal n rest).symm.trans
        (hfront.trans (SpecialNumber.ofFront?_spelling s' rest'))
    | decimal n' => exact .inr ⟨n, n', rfl, rfl⟩

theorem longest_of_endsBefore {o : Options} {m : NumberLiteral} (hm : m.Admitted o)
    {rest : List Byte} (hrest : m.scalar.EndsBefore rest) : Longest o (m.text ++ rest) m := by
  refine ⟨hm, List.prefix_append _ _, fun m' hm' hfront => ?_⟩
  obtain ⟨rest', hrest'⟩ := hfront
  rcases alike hrest' with rfl | ⟨n', n, rfl, rfl⟩
  · exact Nat.le_refl _
  · exact Decimal.length_le_of_stops hm hm' hrest ⟨rest', hrest'⟩

/-- The longest number ends where it does not go on, unless what it lacks begins there: a digit
would make a longer one. -/
theorem Longest.endsBefore_iff {o : Options} {m : NumberLiteral} {rest : List Byte}
    (h : Longest o (m.text ++ rest) m) :
    m.scalar.EndsBefore rest ↔ ∀ b ∈ rest.head?, ¬ m.Lacks b := by
  cases m with
  | special s => exact iff_of_true trivial fun _ _ => id
  | decimal n =>
    refine forall₂_congr fun b hb => ?_
    rw [Decimal.continuedBy_eq_false]
    constructor
    · rintro ⟨hdigit, hdot, hmark⟩ (⟨hb, -⟩ | ⟨rfl, hfraction, hexponent⟩ | ⟨hb, hexponent⟩)
      · exact absurd hb (by simp [hdigit])
      · exact hdot hfraction hexponent rfl
      · exact absurd hb (by simp [hmark hexponent])
    · intro hlacks
      refine ⟨eq_false_of_ne_true fun hdigit => ?_, ?_, ?_⟩
      · have hgrows : ¬ (n.whole = .zero ∧ n.fraction = none ∧ n.exponent = none) :=
          fun hzero => hlacks (.inl ⟨hdigit, hzero⟩)
        obtain ⟨n', htext, hsign, hwhole⟩ := Decimal.exists_extended hdigit hgrows
        obtain ⟨tail, rfl⟩ := List.head?_eq_some_iff.1 hb
        have hadmitted : (decimal n').Admitted o :=
          ⟨fun hplus => h.admitted.1 (hsign ▸ hplus), fun habsent => h.admitted.2 (hwhole habsent)⟩
        have hfront : (decimal n').text <+: (decimal n).text ++ b :: tail :=
          ⟨tail, by simp [text, scalar, Scalar.text, htext]⟩
        have hle := h.longest _ hadmitted hfront
        simp [text, scalar, Scalar.text, htext] at hle
      · rintro hfraction hexponent rfl
        exact hlacks (.inr (.inl ⟨rfl, hfraction, hexponent⟩))
      · intro hexponent
        refine eq_false_of_ne_true fun hmark => ?_
        exact hlacks (.inr (.inr ⟨hmark, hexponent⟩))

theorem exists_of_scan {o : Options} {l : Limits} {bytes : List Byte} {x : Number} {k : Nat}
    (h : Number.scan o l bytes = .ok (x, k)) :
    ∃ (m : NumberLiteral) (rest : List Byte), m.Admitted o ∧ bytes = m.text ++ rest ∧
      m.scalar.EndsBefore rest := by
  cases hspecial : SpecialNumber.ofFront? bytes with
  | some s =>
    obtain ⟨rest, rfl⟩ := SpecialNumber.exists_of_ofFront? hspecial
    rw [Number.scan_special] at h
    by_cases hon : o.infinityAndNan = true
    · exact ⟨special s, rest, hon, rfl, trivial⟩
    · rw [if_neg hon] at h
      cases h
  | none =>
    rcases Numeral.scan_cases o bytes with ⟨n, rest, hn, rfl, hstop⟩ | ⟨-, -, -, f, -, hf, -⟩
    · exact ⟨decimal n, rest, hn, rfl, hstop⟩
    · rw [Number.scan_of_no_special hspecial, hf] at h
      cases h

theorem scan_of_endsBefore {o : Options} {l : Limits} {m : NumberLiteral} (hm : m.Admitted o)
    {rest : List Byte} (hrest : m.scalar.EndsBefore rest) {x : Number} {k : Nat} :
    Number.scan o l (m.text ++ rest) = .ok (x, k) ↔
      m.scalar.Within l ∧ x = m.number ∧ k = m.text.length := by
  have hvalue (hscan : Number.scan o l (m.text ++ rest) = .ok (m.number, m.text.length))
      (hwithin : m.scalar.Within l) : Number.scan o l (m.text ++ rest) = .ok (x, k) ↔
        m.scalar.Within l ∧ x = m.number ∧ k = m.text.length := by
    rw [hscan, and_iff_right hwithin, Except.ok.injEq, Prod.mk.injEq, eq_comm, @eq_comm _ k]
  cases m with
  | special s => exact hvalue ((Number.scan_special o l s rest).trans (if_pos hm)) trivial
  | decimal n =>
    by_cases hwithin : (Scalar.decimal n).Within l
    · exact hvalue (Number.scan_within hm hrest hwithin) hwithin
    · obtain ⟨f, hf, -⟩ := Number.scan_beyond hm hrest hwithin
      refine iff_of_false ?_ fun h => hwithin h.1
      rw [show (decimal n).text = n.text from rfl, hf]
      nofun

/-- Where the bytes begin with a longest number, that number is read if nothing goes on with it and
it is within the limits, and otherwise none is. -/
theorem Longest.scan_iff {o : Options} {l : Limits} {m : NumberLiteral} {rest : List Byte}
    (h : Longest o (m.text ++ rest) m) {x : Number} {k : Nat} :
    Number.scan o l (m.text ++ rest) = .ok (x, k) ↔
      (∀ b ∈ rest.head?, ¬ m.Lacks b) ∧ m.scalar.Within l ∧ x = m.number ∧ k = m.text.length := by
  rw [← h.endsBefore_iff]
  constructor
  · intro hscan
    have hends : m.scalar.EndsBefore rest := by
      obtain ⟨m', rest', hm', hbytes, hends'⟩ := exists_of_scan hscan
      have hlongest' := longest_of_endsBefore hm' hends'
      rw [← hbytes] at hlongest'
      have hlength := Nat.le_antisymm (h.longest m' hm' hlongest'.front)
        (hlongest'.longest m h.admitted h.front)
      obtain ⟨htext, rfl⟩ := List.append_inj hbytes hlength.symm
      rcases alike hbytes with rfl | ⟨n, n', rfl, rfl⟩
      · exact hends'
      · intro b hb
        rw [Decimal.continuedBy_congr htext]
        exact hends' b hb
    exact ⟨hends, (scan_of_endsBefore h.admitted hends).1 hscan⟩
  · rintro ⟨hends, hvalue⟩
    exact (scan_of_endsBefore h.admitted hends).2 hvalue

end NumberLiteral

end LocatedJson.Grammar

namespace LocatedJson.Reader

open Grammar

/-- A number is read only where there is a longest one, and then it is that one: unless a part that
it lacks begins behind it or it is an integer of too many digits. The reader then stands behind it.
Integers and nothing else are read as integers, and exactly. -/
theorem readNumber_longest {r : Reader} {pos : Nat} (hpos : r.pos = pos)
    (hlimit : r.limits.numberLength = none) :
    ((∃ x r', r.readNumber = .ok x r') →
      ∃ m, NumberLiteral.Longest r.options (r.contents.text.drop pos) m) ∧
    ∀ m, NumberLiteral.Longest r.options (r.contents.text.drop pos) m →
      ((∃ x r', r.readNumber = .ok x r') ↔
        (∀ b ∈ (r.contents.text.drop (pos + m.text.length)).head?, ¬ m.Lacks b) ∧
          ¬ (m.IsInteger ∧ 4300 < m.wholeDigits.length)) ∧
      ∀ x r', r.readNumber = .ok x r' →
        r' = r.seek (pos + m.text.length : Nat) ∧ ((∃ i, x = .int i) ↔ m.IsInteger) ∧
          ∀ i, x = .int i → i = m.integer := by
  constructor
  · rintro ⟨x, r', hx⟩
    obtain ⟨k, hscan, -⟩ := (readNumber_eq_ok_iff hpos).1 hx
    obtain ⟨m, rest, hm, hbytes, hends⟩ := NumberLiteral.exists_of_scan hscan
    rw [hbytes]
    exact ⟨m, NumberLiteral.longest_of_endsBefore hm hends⟩
  · intro m hm
    obtain ⟨rest, hrest⟩ := hm.front
    have hbehind : r.contents.text.drop (pos + m.text.length) = rest := by
      rw [← List.drop_drop, ← hrest, List.drop_left]
    rw [hbehind, ← NumberLiteral.within_iff hlimit]
    have hread {x : Number} {r' : Reader} : r.readNumber = .ok x r' ↔ _ :=
      readNumber_eq_ok_iff hpos
    rw [← hrest] at hm hread
    refine ⟨⟨?_, ?_⟩, ?_⟩
    · rintro ⟨x, r', hx⟩
      obtain ⟨k, hscan, -⟩ := hread.1 hx
      obtain ⟨hlacks, hw, -⟩ := hm.scan_iff.1 hscan
      exact ⟨hlacks, hw⟩
    · rintro ⟨hlacks, hw⟩
      exact ⟨_, _, hread.2 ⟨_, hm.scan_iff.2 ⟨hlacks, hw, rfl, rfl⟩, rfl⟩⟩
    · intro x r' hx
      obtain ⟨k, hscan, rfl⟩ := hread.1 hx
      obtain ⟨-, -, rfl, rfl⟩ := hm.scan_iff.1 hscan
      refine ⟨rfl, ?_, ?_⟩
      · simp [NumberLiteral.number_eq_int_iff]
      · exact fun i hi => ((NumberLiteral.number_eq_int_iff m i).1 hi).2

def twoExponents : List Byte := [0x5b, 0x2d, 0x2e, 0x35, 0x65, 0x33, 0x65, 0x31]

theorem readNumber_twoExponents :
    ∃ x, readNumber ⟨.ofBytes twoExponents, .relaxed, {}, 1⟩ =
        .ok x ⟨.ofBytes twoExponents, .relaxed, {}, (6 : Nat)⟩ ∧ ¬ ∃ i, x = .int i := by
  let five : Digits := ⟨[0x35], nofun, by decide +kernel⟩
  let three : Digits := ⟨[0x33], nofun, by decide +kernel⟩
  let m : NumberLiteral :=
    .decimal ⟨.minus, .absent, some five, some ⟨0x65, .inl rfl, .absent, three⟩, nofun⟩
  have hadmitted : m.Admitted .relaxed := ⟨nofun, fun _ => rfl⟩
  have hends : m.scalar.EndsBefore [0x65, 0x31] := by
    rintro b ⟨⟩
    rfl
  have hlongest : NumberLiteral.Longest .relaxed (twoExponents.drop 1) m :=
    NumberLiteral.longest_of_endsBefore hadmitted hends
  obtain ⟨hsome, hvalue⟩ := (readNumber_longest (r := ⟨.ofBytes twoExponents, .relaxed, {}, 1⟩)
    (rfl : (1 : Int) = (1 : Nat)) rfl).2 m hlongest
  have hlacks : ∀ b ∈ (twoExponents.drop (1 + m.text.length)).head?, ¬ m.Lacks b :=
    (NumberLiteral.Longest.endsBefore_iff hlongest).1 hends
  have hfloat : ¬ m.IsInteger := nofun
  obtain ⟨x, r', hx⟩ := hsome.2 ⟨hlacks, fun h => hfloat h.1⟩
  obtain ⟨rfl, hint, -⟩ := hvalue x r' hx
  exact ⟨x, hx, mt hint.1 hfloat⟩

end LocatedJson.Reader
