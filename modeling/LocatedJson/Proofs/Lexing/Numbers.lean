import LocatedJson.Proofs.Grammar.Literal
import LocatedJson.Proofs.Runs

/-! Reading numbers. Each part of a number has two lemmas: written in front of a byte that does
not go on with it, the part is read as written; and where it cannot be read, the refusal says
so at a byte up to which some number fits. The parts are then joined from left to right. -/
namespace LocatedJson

def Scanned.after {α : Type} (n : Nat) : Scanned α → Scanned α
  | .ok (a, m) => .ok (a, n + m)
  | .error f => .error (f.shift n)

namespace Scan

variable {α β : Type}

theorem bind_ok {x : Scan α} {f : α → Scan β} {bytes : List Byte} {a : α} {n : Nat}
    (h : x bytes = .ok (a, n)) : (x >>= f) bytes = Scanned.after n (f a (bytes.drop n)) := by
  show Scan.bind x f bytes = _
  unfold Scan.bind
  rw [h]
  cases hf : f a (bytes.drop n) with
  | error e => simp [Scanned.after, hf]
  | ok r => simp [Scanned.after, hf]

theorem bind_error {x : Scan α} {f : α → Scan β} {bytes : List Byte} {e : Fault}
    (h : x bytes = .error e) : (x >>= f) bytes = .error e := by
  show Scan.bind x f bytes = _
  unfold Scan.bind
  rw [h]

@[simp] theorem pure_apply (a : α) (bytes : List Byte) :
    (Pure.pure a : Scan α) bytes = .ok (a, 0) := rfl

@[simp] theorem after_zero (r : Scanned α) : Scanned.after 0 r = r := by
  cases r <;> simp [Scanned.after, Fault.shift]

theorem after_after (n m : Nat) (r : Scanned α) :
    Scanned.after n (Scanned.after m r) = Scanned.after (n + m) r := by
  cases r <;> simp [Scanned.after, Fault.shift, Nat.add_assoc]

@[simp] theorem peek_bind (f : Option Byte → Scan β) (bytes : List Byte) :
    (Scan.peek >>= f) bytes = f bytes.head? bytes := by
  rw [bind_ok (a := bytes.head?) (n := 0) rfl, List.drop_zero, after_zero]

@[simp] theorem skip_bind (n : Nat) (f : Unit → Scan β) (bytes : List Byte) :
    (Scan.skip n >>= f) bytes = Scanned.after n (f () (bytes.drop n)) := bind_ok rfl

@[simp] theorem run_bind (inClass : Byte → Bool) (f : List Byte → Scan β) (bytes : List Byte) :
    (Scan.run inClass >>= f) bytes =
      Scanned.after (bytes.takeWhile inClass).length
        (f (bytes.takeWhile inClass) (bytes.dropWhile inClass)) := by
  rw [bind_ok (a := bytes.takeWhile inClass) (n := (bytes.takeWhile inClass).length) rfl,
    drop_length_takeWhile]

end Scan

namespace Grammar

def Digits.zero : Digits := ⟨[Byte.zero], by simp, List.forall_mem_singleton.2 (by decide)⟩

def isSign (b : Byte) : Bool := b == Byte.minus || b == Byte.plus

theorem Digits.stops_isSign (d : Digits) (rest : List Byte) : Stops isSign (d.bytes ++ rest) := by
  intro b hb
  rw [d.head?_append] at hb
  have hd := d.digit b (List.mem_of_mem_head? hb)
  rw [isSign, Bool.or_eq_false_iff, beq_eq_false_iff_ne, beq_eq_false_iff_ne]
  constructor <;> (rintro rfl; exact absurd hd (by decide))

theorem Whole.stops_isSign {whole : Whole} {rest : List Byte} (hwhole : whole ≠ .absent) :
    Stops isSign (whole.text ++ rest) := by
  cases whole with
  | absent => exact absurd rfl hwhole
  | zero =>
    rw [Whole.text, List.singleton_append, stops_cons]
    decide
  | positive d _ => exact Digits.stops_isSign d rest

theorem isDigit_of_isExponentMark {b : Byte} (h : b.isExponentMark = true) :
    b.isDigit = false := by
  have hb : b = 0x65 ∨ b = 0x45 := by simpa [Byte.isExponentMark] using h
  rcases hb with rfl | rfl <;> decide

theorem stops_isDigit_exponentText (exponent : Option Exponent) {rest : List Byte}
    (h : Stops Byte.isDigit rest) :
    Stops Byte.isDigit (Decimal.exponentText exponent ++ rest) := by
  cases exponent with
  | none => exact h
  | some e =>
    rw [Decimal.exponentText, Exponent.text, List.cons_append, stops_cons]
    exact isDigit_of_isExponentMark e.isMark

theorem stops_isDigit_fractionText (fraction : Option Digits) {rest : List Byte}
    (h : Stops Byte.isDigit rest) :
    Stops Byte.isDigit (Decimal.fractionText fraction ++ rest) := by
  cases fraction with
  | none => exact h
  | some d =>
    rw [Decimal.fractionText, List.cons_append, stops_cons]
    decide

/-- What may not follow a number, part by part. -/
theorem Decimal.continuedBy_eq_false {n : Decimal} {b : Byte} :
    n.continuedBy b = false ↔ b.isDigit = false ∧
      (n.fraction = none → n.exponent = none → b ≠ Byte.dot) ∧
      (n.exponent = none → b.isExponentMark = false) := by
  unfold Decimal.continuedBy
  cases n.fraction <;> cases n.exponent <;> simp [and_assoc]

end Grammar

namespace Numeral

open Grammar

theorem scanDigits_digits (place : DigitPlace) (d : Digits) {rest : List Byte}
    (hrest : Stops Byte.isDigit rest) :
    scanDigits place (d.bytes ++ rest) = .ok (d.bytes, d.bytes.length) := by
  unfold scanDigits
  rw [Scan.run_bind, takeWhile_append_stop d.digit hrest]
  simp [d.ne_nil, Scanned.after]

theorem scanDigits_cases (place : DigitPlace) (bytes : List Byte) :
    (∃ (d : Digits) (rest : List Byte), bytes = d.bytes ++ rest ∧ Stops Byte.isDigit rest) ∨
      scanDigits place bytes = .error (.here (.expectedDigit place bytes.head?) 0) := by
  by_cases h : bytes.takeWhile Byte.isDigit = []
  · right
    have hsplit := List.takeWhile_append_dropWhile (p := Byte.isDigit) (l := bytes)
    rw [h, List.nil_append] at hsplit
    unfold scanDigits
    rw [Scan.run_bind, h, hsplit]
    rfl
  · refine .inl ⟨⟨_, h, fun _ hb => isDigit_iff.1 (List.mem_takeWhile_imp hb)⟩,
      bytes.dropWhile Byte.isDigit, ?_, stops_dropWhile _ _⟩
    exact List.takeWhile_append_dropWhile.symm

/-! The sign. -/

theorem scanSign_minus (o : Options) (rest : List Byte) :
    scanSign o (Byte.minus :: rest) = .ok (true, 1) := rfl

theorem scanSign_plus (o : Options) (rest : List Byte) :
    scanSign o (Byte.plus :: rest) =
      if o.explicitPlus then .ok (false, 1) else .error (.here (.notEnabled .explicitPlus) 0) := by
  unfold scanSign
  rw [Scan.peek_bind]
  cases o.explicitPlus <;> rfl

theorem scanSign_absent (o : Options) {bytes : List Byte} (h : Stops isSign bytes) :
    scanSign o bytes = .ok (false, 0) := by
  unfold scanSign
  rw [Scan.peek_bind]
  refine congrFun (g := (pure false : Scan Bool)) ?_ bytes
  split
  · rename_i heq
    exact absurd (h _ heq) (by decide)
  · rename_i heq
    exact absurd (h _ heq) (by decide)
  · rfl

theorem scanSign_sign {o : Options} {sign : Sign} {rest : List Byte}
    (hplus : sign = .plus → o.explicitPlus = true) (hrest : sign = .absent → Stops isSign rest) :
    scanSign o (sign.text ++ rest) = .ok (sign.isNegative, sign.text.length) := by
  cases sign with
  | minus => exact scanSign_minus o rest
  | plus => exact (scanSign_plus o rest).trans (if_pos (hplus rfl))
  | absent => exact scanSign_absent o (hrest rfl)

theorem exists_sign (bytes : List Byte) :
    ∃ (sign : Sign) (rest : List Byte), bytes = sign.text ++ rest ∧
      (sign = .absent → Stops isSign rest) := by
  match bytes with
  | [] => exact ⟨.absent, [], rfl, fun _ => stops_nil _⟩
  | b :: rest =>
    by_cases hm : b = Byte.minus
    · exact ⟨.minus, rest, by rw [hm]; rfl, nofun⟩
    by_cases hp : b = Byte.plus
    · exact ⟨.plus, rest, by rw [hp]; rfl, nofun⟩
    · refine ⟨.absent, b :: rest, rfl, fun _ => ?_⟩
      simp [isSign, hm, hp]

theorem scanSign_cases (o : Options) (bytes : List Byte) :
    (∃ (sign : Sign) (rest : List Byte), bytes = sign.text ++ rest ∧
      (sign = .plus → o.explicitPlus = true) ∧ (sign = .absent → Stops isSign rest)) ∨
      scanSign o bytes = .error (.here (.notEnabled .explicitPlus) 0) := by
  obtain ⟨sign, rest, rfl, hrest⟩ := exists_sign bytes
  by_cases ho : sign = .plus → o.explicitPlus = true
  · exact .inl ⟨sign, rest, rfl, ho, hrest⟩
  · obtain ⟨rfl, hoff⟩ := Classical.not_imp.1 ho
    exact .inr ((scanSign_plus o rest).trans (if_neg hoff))

/-! The digits before the point. -/

theorem scanWhole_zero (o : Options) (rest : List Byte) :
    scanWhole o (Byte.zero :: rest) =
      if rest.head?.any Byte.isDigit then .error (.here .leadingZero 1)
      else .ok ([Byte.zero], 1) := by
  have h : scanWhole o (Byte.zero :: rest) = (Scan.skip 1 >>= fun _ => Scan.peek >>= fun next =>
      if next.any Byte.isDigit then Scan.fail .leadingZero else pure [Byte.zero])
        (Byte.zero :: rest) := by
    unfold scanWhole
    rw [Scan.peek_bind]
    rfl
  rw [h, Scan.skip_bind, Scan.peek_bind, List.drop_one, List.tail_cons]
  split <;> rfl

theorem scanWhole_dot (o : Options) (rest : List Byte) :
    scanWhole o (Byte.dot :: rest) =
      if o.leadingDot then .ok ([], 0) else .error (.here (.notEnabled .leadingDot) 0) := by
  unfold scanWhole
  rw [Scan.peek_bind]
  cases o.leadingDot <;> rfl

theorem scanWhole_of_ne (o : Options) {bytes : List Byte} (hzero : bytes.head? ≠ some Byte.zero)
    (hdot : bytes.head? ≠ some Byte.dot) : scanWhole o bytes = scanDigits .integer bytes := by
  unfold scanWhole
  rw [Scan.peek_bind]
  refine congrFun (g := scanDigits .integer) ?_ bytes
  split
  · rename_i heq
    exact absurd heq hzero
  · rename_i heq
    exact absurd heq hdot
  · rfl

theorem stops_isDigit_iff (rest : List Byte) :
    Stops Byte.isDigit rest ↔ rest.head?.any Byte.isDigit = false := by
  cases rest <;> simp

theorem scanWhole_whole {o : Options} {whole : Whole} {rest : List Byte}
    (hrest : Stops Byte.isDigit rest)
    (hdot : whole = .absent → o.leadingDot = true ∧ rest.head? = some Byte.dot) :
    scanWhole o (whole.text ++ rest) = .ok (whole.text, whole.text.length) := by
  cases whole with
  | absent =>
    obtain ⟨ho, hhead⟩ := hdot rfl
    obtain ⟨tail, rfl⟩ := List.head?_eq_some_iff.1 hhead
    exact (scanWhole_dot o tail).trans (if_pos ho)
  | zero =>
    rw [stops_isDigit_iff] at hrest
    exact (scanWhole_zero o rest).trans (if_neg (by simp [hrest]))
  | positive d hzero =>
    have hhead := d.head?_append rest
    have hdot : d.bytes.head? ≠ some Byte.dot := by
      intro h
      exact absurd (d.digit _ (List.mem_of_mem_head? h)) (by decide)
    rw [Whole.text, scanWhole_of_ne o (by rwa [hhead]) (by rwa [hhead])]
    exact scanDigits_digits .integer d hrest

theorem scanWhole_cases (o : Options) (bytes : List Byte) :
    (∃ (whole : Whole) (rest : List Byte), bytes = whole.text ++ rest ∧
      Stops Byte.isDigit rest ∧
      (whole = .absent → o.leadingDot = true ∧ rest.head? = some Byte.dot)) ∨
    ∃ (whole : Whole) (rest : List Byte) (f : Fault), bytes = whole.text ++ rest ∧
      (whole = .absent ∨ whole = .zero) ∧ scanWhole o bytes = .error f ∧
      f.offset = whole.text.length := by
  by_cases hzero : bytes.head? = some Byte.zero
  · obtain ⟨rest, rfl⟩ := List.head?_eq_some_iff.1 hzero
    by_cases hd : rest.head?.any Byte.isDigit = true
    · refine .inr ⟨.zero, rest, _, rfl, .inr rfl, (scanWhole_zero o rest).trans (if_pos hd), rfl⟩
    · refine .inl ⟨.zero, rest, rfl, ?_, nofun⟩
      rw [stops_isDigit_iff]
      exact eq_false_of_ne_true hd
  by_cases hdot : bytes.head? = some Byte.dot
  · obtain ⟨rest, rfl⟩ := List.head?_eq_some_iff.1 hdot
    by_cases ho : o.leadingDot = true
    · refine .inl ⟨.absent, _, rfl, ?_, fun _ => ⟨ho, rfl⟩⟩
      rw [stops_cons]
      decide
    · exact .inr ⟨.absent, _, _, rfl, .inl rfl, (scanWhole_dot o rest).trans (if_neg ho), rfl⟩
  rcases scanDigits_cases .integer bytes with ⟨d, rest, rfl, hrest⟩ | herr
  · rw [d.head?_append] at hzero
    exact .inl ⟨.positive d hzero, rest, rfl, hrest, nofun⟩
  · rw [← scanWhole_of_ne o hzero hdot] at herr
    exact .inr ⟨.absent, _, _, rfl, .inl rfl, herr, rfl⟩

/-! The fraction. -/

theorem scanFraction_dot (rest : List Byte) :
    scanFraction (Byte.dot :: rest) =
      Scanned.after 1 ((scanDigits .fraction >>= fun digits => pure (some digits)) rest) := by
  unfold scanFraction
  rw [Scan.peek_bind]
  exact Scan.skip_bind 1 _ _

theorem scanFraction_of_ne {bytes : List Byte} (h : bytes.head? ≠ some Byte.dot) :
    scanFraction bytes = .ok (none, 0) := by
  unfold scanFraction
  rw [Scan.peek_bind]
  refine congrFun (g := (pure none : Scan (Option (List Byte)))) ?_ bytes
  split
  · rename_i heq
    exact absurd heq h
  · rfl

theorem scanFraction_fraction {fraction : Option Digits} {rest : List Byte}
    (hsome : fraction ≠ none → Stops Byte.isDigit rest)
    (hnone : fraction = none → rest.head? ≠ some Byte.dot) :
    scanFraction (Decimal.fractionText fraction ++ rest) =
      .ok (fraction.map (·.bytes), (Decimal.fractionText fraction).length) := by
  cases fraction with
  | none => exact scanFraction_of_ne (hnone rfl)
  | some d =>
    rw [Decimal.fractionText, List.cons_append, scanFraction_dot,
      Scan.bind_ok (scanDigits_digits .fraction d (hsome nofun))]
    simp [Scanned.after, Nat.add_comm]

theorem scanFraction_cases (bytes : List Byte) :
    (∃ (fraction : Option Digits) (rest : List Byte),
      bytes = Decimal.fractionText fraction ++ rest ∧
      (fraction ≠ none → Stops Byte.isDigit rest) ∧
      (fraction = none → rest.head? ≠ some Byte.dot)) ∨
    ∃ (rest : List Byte) (f : Fault), bytes = Byte.dot :: rest ∧
      scanFraction bytes = .error f ∧ f.offset = 1 := by
  by_cases h : bytes.head? = some Byte.dot
  · obtain ⟨rest, rfl⟩ := List.head?_eq_some_iff.1 h
    rcases scanDigits_cases .fraction rest with ⟨d, rest, rfl, hrest⟩ | herr
    · exact .inl ⟨some d, rest, rfl, fun _ => hrest, nofun⟩
    · refine .inr ⟨rest, .here (.expectedDigit .fraction rest.head?) 1, rfl, ?_, rfl⟩
      rw [scanFraction_dot, Scan.bind_error herr]
      rfl
  · exact .inl ⟨none, bytes, rfl, fun h => absurd rfl h, fun _ => h⟩

/-! The exponent. -/

theorem scanEitherSign_sign {sign : Sign} {rest : List Byte}
    (hrest : sign = .absent → Stops isSign rest) :
    scanEitherSign (sign.text ++ rest) = .ok (sign.isNegative, sign.text.length) := by
  cases sign with
  | minus => rfl
  | plus => rfl
  | absent =>
    unfold scanEitherSign
    rw [Scan.peek_bind]
    refine congrFun (g := (pure false : Scan Bool)) ?_ rest
    have h := hrest rfl
    split
    · rename_i heq
      exact absurd (h _ heq) (by decide)
    · rename_i heq
      exact absurd (h _ heq) (by decide)
    · rfl

theorem scanExponent_mark {mark : Byte} (hmark : mark.isExponentMark = true) (sign : Sign)
    {rest : List Byte} (hrest : sign = .absent → Stops isSign rest) :
    scanExponent (mark :: (sign.text ++ rest)) =
      Scanned.after (1 + sign.text.length) ((scanDigits .exponent >>= fun digits =>
        pure (some (sign.isNegative, digits))) rest) := by
  unfold scanExponent
  rw [Scan.peek_bind]
  have hany : (mark :: (sign.text ++ rest)).head?.any Byte.isExponentMark = true := hmark
  rw [if_pos hany, Scan.skip_bind, List.drop_one, List.tail_cons,
    Scan.bind_ok (scanEitherSign_sign hrest), List.drop_left, Scan.after_after]

theorem scanExponent_of_ne {bytes : List Byte}
    (h : bytes.head?.any Byte.isExponentMark = false) : scanExponent bytes = .ok (none, 0) := by
  unfold scanExponent
  rw [Scan.peek_bind, if_neg (by simp [h])]
  rfl

theorem scanExponent_exponent {exponent : Option Exponent} {rest : List Byte}
    (hsome : exponent ≠ none → Stops Byte.isDigit rest)
    (hnone : exponent = none → rest.head?.any Byte.isExponentMark = false) :
    scanExponent (Decimal.exponentText exponent ++ rest) =
      .ok (exponent.map fun e => (e.sign.isNegative, e.digits.bytes),
        (Decimal.exponentText exponent).length) := by
  cases exponent with
  | none => exact scanExponent_of_ne (hnone rfl)
  | some e =>
    rw [Decimal.exponentText, Exponent.text, List.cons_append, List.append_assoc,
      scanExponent_mark e.isMark e.sign fun _ => Digits.stops_isSign e.digits rest,
      Scan.bind_ok (scanDigits_digits .exponent e.digits (hsome nofun))]
    simp [Scanned.after]
    omega

theorem scanExponent_cases (bytes : List Byte) :
    (∃ (exponent : Option Exponent) (rest : List Byte),
      bytes = Decimal.exponentText exponent ++ rest ∧
      (exponent ≠ none → Stops Byte.isDigit rest) ∧
      (exponent = none → rest.head?.any Byte.isExponentMark = false)) ∨
    ∃ (mark : Byte) (sign : Sign) (rest : List Byte) (f : Fault),
      mark.isExponentMark = true ∧ bytes = mark :: (sign.text ++ rest) ∧
      scanExponent bytes = .error f ∧ f.offset = 1 + sign.text.length := by
  by_cases h : bytes.head?.any Byte.isExponentMark = true
  · match bytes with
    | mark :: rest =>
      have hmark : mark.isExponentMark = true := h
      obtain ⟨sign, rest, rfl, hsign⟩ := exists_sign rest
      have hscan := scanExponent_mark hmark sign hsign
      rcases scanDigits_cases .exponent rest with ⟨d, rest, rfl, hrest⟩ | herr
      · have heither := isExponentMark_iff.1 hmark
        refine .inl ⟨some ⟨mark, heither, sign, d⟩, rest, ?_, fun _ => hrest, nofun⟩
        simp [Decimal.exponentText, Exponent.text]
      · rw [Scan.bind_error herr] at hscan
        exact .inr ⟨mark, sign, rest, _, hmark, rfl, hscan, rfl⟩
  · exact .inl ⟨none, bytes, rfl, fun h => absurd rfl h, fun _ => eq_false_of_ne_true h⟩

/-! The whole number. -/

/-- The conditions under which each part of a number is read as written. -/
structure Splits (o : Options) (n : Decimal) (rest : List Byte) : Prop where
  sign : n.sign = .absent → Stops isSign (n.whole.text ++ (Decimal.fractionText n.fraction ++
    (Decimal.exponentText n.exponent ++ rest)))
  whole : Stops Byte.isDigit (Decimal.fractionText n.fraction ++
    (Decimal.exponentText n.exponent ++ rest))
  point : n.whole = .absent → o.leadingDot = true ∧ (Decimal.fractionText n.fraction ++
    (Decimal.exponentText n.exponent ++ rest)).head? = some Byte.dot
  fraction : Stops Byte.isDigit (Decimal.exponentText n.exponent ++ rest)
  noFraction : n.fraction = none →
    (Decimal.exponentText n.exponent ++ rest).head? ≠ some Byte.dot
  exponent : Stops Byte.isDigit rest
  noExponent : n.exponent = none → rest.head?.any Byte.isExponentMark = false

theorem scan_of_splits {o : Options} {n : Decimal} {rest : List Byte}
    (hplus : n.sign = .plus → o.explicitPlus = true) (h : Splits o n rest) :
    Numeral.scan o (n.text ++ rest) = .ok (n.numeral, n.text.length) := by
  have htext : n.text ++ rest = n.sign.text ++ (n.whole.text ++ (Decimal.fractionText n.fraction ++
      (Decimal.exponentText n.exponent ++ rest))) := by
    simp [Decimal.text]
  unfold Numeral.scan
  rw [htext, Scan.bind_ok (scanSign_sign hplus h.sign), List.drop_left,
    Scan.bind_ok (scanWhole_whole h.whole h.point), List.drop_left,
    Scan.bind_ok (scanFraction_fraction (fun _ => h.fraction) h.noFraction), List.drop_left,
    Scan.bind_ok (scanExponent_exponent (fun _ => h.exponent) h.noExponent)]
  simp [Scanned.after, Decimal.text, Decimal.numeral]

theorem splits_of_stop {o : Options} {n : Decimal} (hn : n.Admitted o) {rest : List Byte}
    (hrest : ∀ b ∈ rest.head?, n.continuedBy b = false) : Splits o n rest := by
  have hdigit : Stops Byte.isDigit rest := fun b hb =>
    (Decimal.continuedBy_eq_false.1 (hrest b hb)).1
  have hexp := stops_isDigit_exponentText n.exponent hdigit
  have hfrac := stops_isDigit_fractionText n.fraction hexp
  have hpoint (h : n.whole = .absent) : ∃ d, n.fraction = some d :=
    Option.ne_none_iff_exists'.1 (n.mantissa h)
  refine ⟨fun _ => ?_, hfrac, fun h => ⟨hn.2 h, ?_⟩, hexp, fun h => ?_, hdigit, fun h => ?_⟩
  · by_cases hw : n.whole = .absent
    · obtain ⟨d, hd⟩ := hpoint hw
      rw [hw, hd, Whole.text, Decimal.fractionText, List.nil_append, List.cons_append, stops_cons]
      decide
    · exact Whole.stops_isSign hw
  · obtain ⟨d, hd⟩ := hpoint h
    rw [hd]
    rfl
  · cases he : n.exponent with
    | none =>
      intro hdot
      exact (Decimal.continuedBy_eq_false.1 (hrest _ hdot)).2.1 h he rfl
    | some e =>
      intro hdot
      have hmark : e.mark = Byte.dot := Option.some.inj hdot
      exact absurd e.isMark (by rw [hmark]; decide)
  · cases rest with
    | nil => rfl
    | cons b rest => exact (Decimal.continuedBy_eq_false.1 (hrest b rfl)).2.2 h

theorem scan_decimal {o : Options} {n : Decimal} (hn : n.Admitted o) {rest : List Byte}
    (hrest : ∀ b ∈ rest.head?, n.continuedBy b = false) :
    Numeral.scan o (n.text ++ rest) = .ok (n.numeral, n.text.length) :=
  scan_of_splits hn.1 (splits_of_stop hn hrest)

/-- A refusal behind `front`, up to which the bytes are the front of an admitted number. -/
def RefusedIn (o : Options) (bytes : List Byte) : Prop :=
  ∃ (n : Decimal) (front rest : List Byte) (f : Fault), n.Admitted o ∧
    Numeral.scan o bytes = .error f ∧ bytes = front ++ rest ∧ f.offset = front.length ∧
    front <+: n.text

theorem refusedIn_whole {o : Options} {sign : Sign} {whole : Whole} {rest : List Byte} {f : Fault}
    (hplus : sign = .plus → o.explicitPlus = true)
    (hsign : sign = .absent → Stops isSign (whole.text ++ rest))
    (hwhole : whole = .absent ∨ whole = .zero)
    (hf : scanWhole o (whole.text ++ rest) = .error f) (ho : f.offset = whole.text.length) :
    RefusedIn o (sign.text ++ (whole.text ++ rest)) := by
  refine ⟨⟨sign, .zero, none, none, nofun⟩, sign.text ++ whole.text, rest, f.shift sign.text.length,
    ⟨hplus, nofun⟩, ?_, by simp, by simp [Fault.shift, ho], ?_⟩
  · unfold Numeral.scan
    rw [Scan.bind_ok (scanSign_sign hplus hsign), List.drop_left, Scan.bind_error hf]
    rfl
  · rcases hwhole with rfl | rfl
    · simp [Decimal.text, Whole.text]
    · simp [Decimal.text, Decimal.fractionText, Decimal.exponentText]

theorem refusedIn_fraction {o : Options} {sign : Sign} {whole : Whole} {rest : List Byte}
    {f : Fault} (hplus : sign = .plus → o.explicitPlus = true)
    (hsign : sign = .absent → Stops isSign (whole.text ++ Byte.dot :: rest))
    (hpoint : whole = .absent → o.leadingDot = true)
    (hf : scanFraction (Byte.dot :: rest) = .error f) (ho : f.offset = 1) :
    RefusedIn o (sign.text ++ (whole.text ++ Byte.dot :: rest)) := by
  have hstop : Stops Byte.isDigit (Byte.dot :: rest) := by
    rw [stops_cons]
    decide
  refine ⟨⟨sign, whole, some .zero, none, fun _ => nofun⟩,
    sign.text ++ (whole.text ++ [Byte.dot]), rest,
    (f.shift whole.text.length).shift sign.text.length, ⟨hplus, hpoint⟩, ?_, by simp,
    by simp [Fault.shift, ho], ?_⟩
  · unfold Numeral.scan
    rw [Scan.bind_ok (scanSign_sign hplus hsign), List.drop_left,
      Scan.bind_ok (scanWhole_whole hstop fun h => ⟨hpoint h, rfl⟩), List.drop_left,
      Scan.bind_error hf]
    rfl
  · simp [Decimal.text, Decimal.fractionText]

theorem refusedIn_exponent {o : Options} {n : Decimal} {mark : Byte} {sign : Sign}
    {rest : List Byte} {f : Fault} (hn : n.Admitted o) (hnone : n.exponent = none)
    (hmark : mark.isExponentMark = true)
    (hsplit : n.sign = .absent → Stops isSign (n.whole.text ++ (Decimal.fractionText n.fraction ++
      mark :: (sign.text ++ rest))))
    (hpoint : n.whole = .absent → (Decimal.fractionText n.fraction ++
      mark :: (sign.text ++ rest)).head? = some Byte.dot)
    (hf : scanExponent (mark :: (sign.text ++ rest)) = .error f)
    (ho : f.offset = 1 + sign.text.length) :
    RefusedIn o (n.sign.text ++ (n.whole.text ++ (Decimal.fractionText n.fraction ++
      mark :: (sign.text ++ rest)))) := by
  have hstop : Stops Byte.isDigit (mark :: (sign.text ++ rest)) := by
    rw [stops_cons]
    exact isDigit_of_isExponentMark hmark
  have hdot : (mark :: (sign.text ++ rest)).head? ≠ some Byte.dot := by
    intro h
    obtain rfl : mark = Byte.dot := Option.some.inj h
    exact absurd hmark (by decide)
  refine ⟨{ n with exponent := some ⟨mark, isExponentMark_iff.1 hmark, sign, .zero⟩ },
    n.text ++ mark :: sign.text, rest, ((f.shift (Decimal.fractionText n.fraction).length).shift
      n.whole.text.length).shift n.sign.text.length, hn, ?_, ?_, ?_, ?_⟩
  · unfold Numeral.scan
    rw [Scan.bind_ok (scanSign_sign hn.1 hsplit), List.drop_left,
      Scan.bind_ok (scanWhole_whole (stops_isDigit_fractionText _ hstop)
        fun h => ⟨hn.2 h, hpoint h⟩), List.drop_left,
      Scan.bind_ok (scanFraction_fraction (fun _ => hstop) fun _ => hdot), List.drop_left,
      Scan.bind_error hf]
    rfl
  · simp [Decimal.text, hnone, Decimal.exponentText]
  · simp [Decimal.text, hnone, Decimal.exponentText, Fault.shift, ho]
    omega
  · simp [Decimal.text, hnone, Decimal.exponentText, Exponent.text]

/-- Bytes are a number that nothing goes on with, or are refused behind the front of one. -/
theorem scan_cases (o : Options) (bytes : List Byte) :
    (∃ (n : Decimal) (rest : List Byte), n.Admitted o ∧ bytes = n.text ++ rest ∧
      ∀ b ∈ rest.head?, n.continuedBy b = false) ∨ RefusedIn o bytes := by
  rcases scanSign_cases o bytes with ⟨sign, rest, rfl, hplus, hsign⟩ | herr
  · rcases scanWhole_cases o rest with
      ⟨whole, rest, rfl, hdigit, hpoint⟩ | ⟨whole, rest, f, rfl, hw, hf, ho⟩
    · rcases scanFraction_cases rest with
        ⟨fraction, rest, rfl, hsome, hnone⟩ | ⟨rest, f, rfl, hf, ho⟩
      · have hmantissa : whole = .absent → fraction ≠ none := by
          rintro hw rfl
          exact hnone rfl (hpoint hw).2
        rcases scanExponent_cases rest with
          ⟨exponent, rest, rfl, hsome', hnone'⟩ | ⟨mark, sign', rest, f, hmark, rfl, hf, ho⟩
        · refine .inl ⟨⟨sign, whole, fraction, exponent, hmantissa⟩, rest,
            ⟨hplus, fun h => (hpoint h).1⟩, by simp [Decimal.text], ?_⟩
          intro b hb
          refine Decimal.continuedBy_eq_false.2 ⟨?_, ?_, ?_⟩
          · cases exponent with
            | some e => exact hsome' nofun b hb
            | none =>
              cases fraction with
              | some d => exact hsome nofun b hb
              | none => exact hdigit b hb
          · rintro rfl rfl rfl
            exact hnone rfl hb
          · rintro rfl
            have hmark := hnone' rfl
            rw [Option.mem_def.1 hb] at hmark
            exact hmark
        · exact .inr (refusedIn_exponent
            (n := ⟨sign, whole, fraction, none, hmantissa⟩) ⟨hplus, fun h => (hpoint h).1⟩ rfl
            hmark hsign (fun h => (hpoint h).2) hf ho)
      · exact .inr (refusedIn_fraction hplus hsign (fun h => (hpoint h).1) hf ho)
    · exact .inr (refusedIn_whole hplus hsign hw hf ho)
  · refine .inr ⟨⟨.absent, .zero, none, none, nofun⟩, [], bytes,
      .here (.notEnabled .explicitPlus) 0, ⟨nofun, nofun⟩, ?_, rfl, rfl, List.nil_prefix⟩
    unfold Numeral.scan
    rw [Scan.bind_error herr]

end Numeral

end LocatedJson
