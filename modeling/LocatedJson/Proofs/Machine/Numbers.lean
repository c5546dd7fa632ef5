import LocatedJson.Proofs.Machine.Buffer

/-! The machine reads numbers as the scan does. Its conversions are defined: the text of a number is
ASCII, and the free reading of it gives back the number. -/
namespace LocatedJson

open Grammar

theorem Grammar.Digits.ascii (d : Digits) : ∀ b ∈ d.bytes, b < 0x80 := by
  intro b hb
  have h := d.digit b hb
  simp only [Byte.isDigit, Bool.and_eq_true, decide_eq_true_eq] at h
  exact UInt8.lt_of_le_of_lt h.2 (by decide)

theorem Grammar.Sign.ascii (sign : Sign) : ∀ b ∈ sign.text, b < 0x80 := by
  cases sign with
  | absent => nofun
  | minus => exact List.forall_mem_singleton.2 (by decide)
  | plus => exact List.forall_mem_singleton.2 (by decide)

theorem Grammar.Exponent.ascii (e : Exponent) : ∀ b ∈ e.text, b < 0x80 := by
  have hmark : e.mark < 0x80 := by
    have h : e.mark = 0x65 ∨ e.mark = 0x45 := by simpa [Byte.isExponentMark] using e.isMark
    rcases h with h | h <;> rw [h] <;> decide
  intro b hb
  rcases List.mem_cons.1 hb with rfl | hb
  · exact hmark
  · rcases List.mem_append.1 hb with hb | hb
    · exact e.sign.ascii b hb
    · exact e.digits.ascii b hb

theorem Grammar.Decimal.ascii (n : Decimal) : ∀ b ∈ n.text, b < 0x80 := by
  unfold Decimal.text
  simp only [List.forall_mem_append]
  refine ⟨n.sign.ascii, ?_, ?_, ?_⟩
  · cases n.whole with
    | absent => nofun
    | zero => exact List.forall_mem_singleton.2 (by decide)
    | positive digits leading => exact digits.ascii
  · cases n.fraction with
    | none => nofun
    | some digits =>
      intro b hb
      rcases List.mem_cons.1 hb with rfl | hb
      · decide
      · exact digits.ascii b hb
  · cases n.exponent with
    | none => nofun
    | some e => exact e.ascii

theorem Grammar.Decimal.all_ascii (n : Decimal) : n.text.all (· < 0x80) = true := by
  simpa using n.ascii

namespace Numeral

theorem scanLooseFraction_fraction {fraction : Option Digits} {rest : List Byte}
    (hrest : Stops Byte.isDigit rest) (hnone : fraction = none → rest.head? ≠ some Byte.dot) :
    scanLooseFraction (Decimal.fractionText fraction ++ rest) =
      .ok (fraction.map (·.bytes), (Decimal.fractionText fraction).length) := by
  unfold scanLooseFraction
  rw [Scan.peek_bind]
  cases fraction with
  | none =>
    refine congrFun (g := (pure none : Scan (Option (List Byte)))) ?_ _
    split
    · rename_i heq
      exact absurd heq (hnone rfl)
    · rfl
  | some d =>
    show (Scan.skip 1 >>= _) (Byte.dot :: (d.bytes ++ rest)) = _
    rw [Scan.skip_bind, List.drop_one, List.tail_cons, Scan.run_bind,
      takeWhile_append_stop d.digit hrest]
    simp [Scanned.after, Decimal.fractionText, Nat.add_comm]

/-- The free reading of a number's text gives the number. -/
theorem scanLoose_decimal (n : Decimal) : scanLoose n.text = .ok (n.numeral, n.text.length) := by
  have hn : n.Admitted .relaxed := ⟨fun _ => rfl, fun _ => rfl⟩
  have h : Splits .relaxed n [] := splits_of_stop hn (by simp)
  have hwhole : ∀ b ∈ n.whole.text, b.isDigit = true := by
    cases n.whole with
    | absent => nofun
    | zero => exact List.forall_mem_singleton.2 (by decide)
    | positive digits leading => exact digits.digit
  have htext : n.text = n.sign.text ++ (n.whole.text ++ (Decimal.fractionText n.fraction ++
      (Decimal.exponentText n.exponent ++ []))) := by
    simp [Decimal.text]
  unfold scanLoose
  rw [htext, Scan.bind_ok (scanEitherSign_sign h.sign), List.drop_left, Scan.run_bind,
    takeWhile_append_stop hwhole h.whole, dropWhile_append_stop hwhole h.whole,
    Scan.bind_ok (scanLooseFraction_fraction h.fraction h.noFraction), List.drop_left,
    Scan.bind_ok (scanExponent_exponent (fun _ => h.exponent) h.noExponent)]
  simp [Scanned.after, Decimal.numeral]

theorem ofText?_decimal (n : Decimal) : ofText? n.text = some n.numeral := by
  have hdigit : (n.numeral.whole ++ n.numeral.fraction.getD []).isEmpty = false := by
    show (n.whole.text ++ _).isEmpty = false
    cases hw : n.whole with
    | absent =>
      obtain ⟨d, hd⟩ := Option.ne_none_iff_exists'.1 (n.mantissa hw)
      simp [Decimal.numeral, hd, Whole.text, d.ne_nil]
    | zero => rfl
    | positive digits leading => simp [Whole.text, digits.ne_nil]
  rw [ofText?, scanLoose_decimal]
  simp [hdigit]

end Numeral

namespace Machine

variable {takes : Numeral → Bool} {c : Contents} {o : Options} {l : Limits} {pos : Nat}

theorem performs_digits (place : DigitPlace) :
    Performs c (passDigits c place) (fun _ => ()) (Numeral.scanDigits place) := by
  apply Performs.bind (performs_run Byte.isDigit)
  intro digits
  cases digits with
  | nil => exact performs_peek.bind fun found => performs_fail _ (.expectedDigit place found)
  | cons b tail => exact performs_pure (fun _ : List Byte => ()) (b :: tail)

theorem performs_sign : Performs c (passSign c o) (fun _ => ()) (Numeral.scanSign o) := by
  apply performs_peek.bind
  intro found
  simp only [id]
  by_cases hminus : found = some Byte.minus
  · subst hminus
    exact fun _ => rfl
  by_cases hplus : found = some Byte.plus
  · subst hplus
    by_cases h : o.explicitPlus = true
    · simp only [h]
      exact fun _ => rfl
    · simp only [h]
      exact performs_fail _ _
  rw [if_neg hminus, if_neg hplus]
  split
  · exact absurd rfl hminus
  · exact absurd rfl hplus
  · exact performs_pure (fun _ : Bool => ()) false

theorem performs_whole : Performs c (passWhole c o) (fun _ => ()) (Numeral.scanWhole o) := by
  apply performs_peek.bind
  intro found
  simp only [id]
  by_cases hzero : found = some Byte.zero
  · subst hzero
    apply (performs_step 1).bind
    intro _
    apply performs_peek.bind
    intro next
    simp only [id]
    split
    · exact performs_fail _ _
    · exact performs_pure (fun _ : List Byte => ()) [Byte.zero]
  by_cases hdot : found = some Byte.dot
  · subst hdot
    by_cases h : o.leadingDot = true
    · simp only [h]
      exact performs_pure (fun _ : List Byte => ()) []
    · simp only [h]
      exact performs_fail _ _
  rw [if_neg hzero, if_neg hdot]
  split
  · exact absurd rfl hzero
  · exact absurd rfl hdot
  · exact performs_digits .integer

theorem performs_fraction : Performs c (passFraction c) Option.isSome Numeral.scanFraction := by
  apply performs_peek.bind
  intro found
  simp only [id]
  by_cases hdot : found = some Byte.dot
  · subst hdot
    apply (performs_step 1).bind
    intro _
    apply (performs_digits .fraction).bind
    intro digits
    exact performs_pure Option.isSome (some digits)
  rw [if_neg hdot]
  split
  · exact absurd rfl hdot
  · exact performs_pure Option.isSome none

theorem performs_eitherSign :
    Performs c (passEitherSign c) (fun _ => ()) Numeral.scanEitherSign := by
  apply performs_peek.bind
  intro found
  simp only [id]
  split
  · rename_i h
    rcases h with rfl | rfl <;> exact fun _ => rfl
  · rename_i h
    rw [not_or] at h
    split
    · exact absurd rfl h.1
    · exact absurd rfl h.2
    · exact performs_pure (fun _ : Bool => ()) false

theorem performs_exponent : Performs c (passExponent c) Option.isSome Numeral.scanExponent := by
  apply performs_peek.bind
  intro found
  simp only [id]
  split
  · apply (performs_step 1).bind
    intro _
    apply performs_eitherSign.bind
    intro negative
    apply (performs_digits .exponent).bind
    intro digits
    exact performs_pure Option.isSome (some (negative, digits))
  · exact performs_pure Option.isSome none

theorem performs_number :
    Performs c (passNumber c o) (fun n => !n.isInteger) (Numeral.scan o) := by
  apply performs_sign.bind
  intro negative
  apply performs_whole.bind
  intro whole
  apply performs_fraction.bind
  intro fraction
  apply performs_exponent.bind
  intro exponent pos
  cases fraction <;> cases exponent <;> rfl

theorem integer_decimal {n : Decimal} (hn : n.numeral.isInteger = true) (start pos : Nat) :
    integer n.text start pos =
      if Numeral.maxIntegerDigits < n.numeral.whole.length then
        .error (.failed .integerTooLong start) pos
      else .ok n.numeral.toNumber pos := by
  rw [integer, Numeral.ofText?_decimal]
  dsimp only
  rw [hn, if_neg (by decide)]
  split <;> rfl

theorem float_decimal {n : Decimal} (hn : n.numeral.isInteger = false) (pos : Nat) :
    float takes n.text pos =
      if takes n.numeral then .ok n.numeral.toNumber pos
      else .error (.trapped .notANumber) pos := by
  rw [float, Numeral.ofText?_decimal, Numeral.toNumber, hn]
  dsimp only
  split <;> rfl

theorem asciiText_decimal (n : Decimal) (pos : Nat) : asciiText n.text pos = .ok n.text pos := by
  rw [asciiText, if_pos n.all_ascii]
  rfl

theorem lookUp_special (special : SpecialNumber) (pos : Nat) :
    lookUp specialNumbers special.spelling pos = .ok special.toNumber pos := by
  cases special <;> rfl

theorem readNumber_special {special : SpecialNumber} {rest : List Byte}
    (h : c.text.drop pos = special.spelling ++ rest) :
    readNumber takes c o l pos =
      if o.infinityAndNan then .ok special.toNumber (pos + special.spelling.length)
      else .error (.failed (.notEnabled .infinityAndNan) pos) pos := by
  unfold readNumber
  rw [get_bind, window_eq h, SpecialNumber.ofFront?_spelling]
  dsimp only
  split
  · rw [step_bind, get_bind, slice_eq h, lookUp_special]
  · rfl

theorem readNumber_decimal {n : Decimal} {rest : List Byte} (hn : n.Admitted o)
    (h : c.text.drop pos = n.text ++ rest) (hrest : ∀ b ∈ rest.head?, n.continuedBy b = false) :
    readNumber takes c o l pos =
      match l.violation? .numberLength n.text.length with
      | some cause => .error (.failed cause pos) (pos + n.text.length)
      | none =>
        if n.numeral.isInteger ∧ Numeral.maxIntegerDigits < n.numeral.whole.length then
          .error (.failed .integerTooLong pos) (pos + n.text.length)
        else if n.numeral.isInteger ∨ takes n.numeral then
          .ok n.numeral.toNumber (pos + n.text.length)
        else .error (.trapped .notANumber) (pos + n.text.length) := by
  have hpass := performs_number (c := c) (o := o) pos
  rw [h, Numeral.scan_decimal hn hrest] at hpass
  unfold readNumber
  rw [get_bind, window_eq h, SpecialNumber.ofFront?_decimal]
  dsimp only
  rw [bind_ok hpass, get_bind, Nat.add_sub_cancel_left]
  cases l.violation? .numberLength n.text.length with
  | some cause => rfl
  | none =>
    dsimp only
    rw [slice_eq h, bind_ok (asciiText_decimal n _)]
    by_cases hint : n.numeral.isInteger = true
    · simp only [hint, integer_decimal hint, Bool.not_true, Bool.false_eq_true, if_false, true_and,
        true_or, if_true]
    · rw [Bool.not_eq_true] at hint
      simp only [hint, float_decimal hint, Bool.not_false, if_true, Bool.false_eq_true, false_and,
        if_false, false_or]

theorem readNumber_decimal_agrees {n : Decimal} {rest : List Byte} (hn : n.Admitted o)
    (h : c.text.drop pos = n.text ++ rest) (hrest : ∀ b ∈ rest.head?, n.continuedBy b = false) :
    Agrees pos id (Number.scan o l (n.text ++ rest)) (readNumber takes c o l pos) ∨
      Stalls takes c (readNumber takes c o l pos) := by
  have hspecial := SpecialNumber.ofFront?_decimal n rest
  rw [readNumber_decimal hn h hrest, Number.scan_of_no_special hspecial,
    Numeral.scan_decimal hn hrest]
  dsimp only
  cases l.violation? .numberLength n.text.length with
  | some cause => exact .inl ⟨_, rfl⟩
  | none =>
    simp only [Bool.and_eq_true, decide_eq_true_eq]
    by_cases hlong : n.numeral.isInteger = true ∧ Numeral.maxIntegerDigits < n.numeral.whole.length
    · rw [if_pos hlong, if_pos hlong]
      exact .inl ⟨_, rfl⟩
    rw [if_neg hlong, if_neg hlong]
    by_cases htaken : n.numeral.isInteger = true ∨ takes n.numeral = true
    · rw [if_pos htaken]
      exact .inl rfl
    · rw [if_neg htaken]
      simp only [not_or, Bool.not_eq_true] at htaken
      have hinfix : n.text <:+: c.text :=
        ⟨c.text.take pos, rest, by rw [List.append_assoc, ← h, List.take_append_drop]⟩
      exact .inr ⟨⟨n, hinfix, htaken⟩, _, rfl⟩

theorem readNumber_agrees (takes : Numeral → Bool) (c : Contents) (o : Options) (l : Limits)
    (pos : Nat) :
    Agrees pos id (Number.scan o l (c.text.drop pos)) (readNumber takes c o l pos) ∨
      Stalls takes c (readNumber takes c o l pos) := by
  cases hspecial : SpecialNumber.ofFront? (c.text.drop pos) with
  | some special =>
    obtain ⟨rest, hrest⟩ := SpecialNumber.exists_of_ofFront? hspecial
    rw [readNumber_special hrest, hrest, Number.scan_special]
    split
    · exact .inl rfl
    · exact .inl ⟨pos, rfl⟩
  | none =>
    rcases Numeral.scan_cases o (c.text.drop pos) with ⟨n, rest, hn, htext, hrest⟩ | hrefused
    · rw [htext]
      exact readNumber_decimal_agrees hn htext hrest
    · obtain ⟨-, -, -, fault, -, hscan, -⟩ := hrefused
      obtain ⟨stop, hpass⟩ : ∃ stop, passNumber c o pos =
          .error (.failed fault.cause (pos + fault.offset : Nat)) stop := by
        have hpass := performs_number (c := c) (o := o) pos
        rwa [hscan] at hpass
      rw [Number.scan_of_no_special hspecial, hscan]
      refine .inl ⟨stop, ?_⟩
      unfold readNumber
      rw [get_bind, window_eq rfl, hspecial]
      exact bind_error hpass

end Machine

end LocatedJson
