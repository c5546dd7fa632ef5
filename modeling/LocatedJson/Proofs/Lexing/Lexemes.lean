import LocatedJson.Proofs.Lexing.Causes
import LocatedJson.Proofs.Lexing.Numbers
import LocatedJson.Proofs.Lexing.Strings
import LocatedJson.Token.Lexer

/-! Reading one token. Where no blank stands, the lexer takes a lexeme that nothing goes on with,
if it keeps the limits, and refuses all else at a byte up to which some lexeme fits. -/
namespace LocatedJson

theorem Limits.violation?_eq_none_iff {l : Limits} {m : Measure} {n : Nat} :
    l.violation? m n = none ↔ ∀ bound ∈ l.bound m, n ≤ bound := by
  simp only [Limits.violation?, Limits.broken?, Option.map_eq_none_iff, Option.filter_eq_none_iff,
    decide_eq_true_eq, Nat.not_lt, Option.mem_def]

theorem Limits.violation?_eq_some {l : Limits} {m : Measure} {n : Nat} {cause : Cause}
    (h : l.violation? m n = some cause) :
    ∃ bound ∈ l.bound m, bound < n ∧ cause = .limitExceeded m n bound := by
  obtain ⟨bound, hbound, rfl⟩ := Option.map_eq_some_iff.1 h
  obtain ⟨hmem, hlt⟩ := Option.filter_eq_some_iff.1 hbound
  exact ⟨bound, hmem, by simpa using hlt, rfl⟩

theorem Limits.violation?_of_lt {l : Limits} {m : Measure} {n bound : Nat} (h : bound ∈ l.bound m)
    (hlt : bound < n) : l.violation? m n = some (.limitExceeded m n bound) := by
  simp [Limits.violation?, Limits.broken?, Option.mem_def.1 h, hlt]

theorem Mark.ofByte?_eq_some {b : Byte} {m : Mark} (h : Mark.ofByte? b = some m) :
    b = m.byte := by
  have := List.find?_some h
  exact (eq_of_beq this).symm

open Grammar

/-- What is said of a literal that the limits do not allow. -/
inductive Beyond (l : Limits) (x : Scalar) : Cause → Prop where
  | long (h : x.Fits l) : Beyond l x .integerTooLong
  | broken {m : Measure} {n bound : Nat} (hx : x.measured = some (m, n)) (h : bound ∈ l.bound m)
      (hlt : bound < n) : Beyond l x (.limitExceeded m n bound)

theorem Beyond.of_violation {l : Limits} {x : Scalar} {m : Measure} {n : Nat} {cause : Cause}
    (hx : x.measured = some (m, n)) (h : l.violation? m n = some cause) : Beyond l x cause := by
  obtain ⟨bound, hbound, hlt, rfl⟩ := Limits.violation?_eq_some h
  exact .broken hx hbound hlt

namespace StringLiteral

theorem admits_byte (o : Options) (q : Quote) : admits o q.byte = true ↔ q.Admitted o := by
  cases q with
  | double => exact iff_of_true rfl trivial
  | single => simp [admits, Quote.byte, Quote.Admitted]

theorem scan_off {o : Options} {q : Quote} (h : ¬ q.Admitted o) (l : Limits) (bytes : List Byte) :
    scan o l q.byte bytes = .error (.here (.notEnabled .singleQuotes) 0) := by
  have hoff : admits o q.byte = false := eq_false_of_ne_true (mt (admits_byte o q).1 h)
  simp [scan, hoff]

theorem scan_on {o : Options} {q : Quote} (h : q.Admitted o) (l : Limits) (bytes : List Byte) :
    scan o l q.byte bytes =
      match scanBody q.byte bytes with
      | .error f => .error (f.shift 1)
      | .ok (text, n) =>
        match l.violation? .stringLength text.length with
        | some cause => .error ⟨cause, 0, 1 + n⟩
        | none => .ok (String.ofList text, 1 + n) := by
  have hon : ¬ (!admits o q.byte) = true := by simp [(admits_byte o q).2 h]
  exact if_neg hon

/-- A literal that the grammar has is read whole, and its length is checked then. -/
theorem scan_quoted {o : Options} {q : Quoted} (h : q.Admitted o .paired) (l : Limits)
    (rest : List Byte) :
    scan o l q.quote.byte (q.body ++ rest) =
      match l.violation? .stringLength q.chars.length with
      | some cause => .error ⟨cause, 0, q.text.length⟩
      | none => .ok (q.string, q.text.length) := by
  have hbody := scanBody_units h.2 rest
  have hlen : q.text.length = 1 + ((q.units.flatMap Spelling.text).length + 1) := by
    simp [Quoted.text, Quoted.body]
    omega
  rw [scan_on h.1, Quoted.body, List.append_assoc, List.singleton_append, hbody, hlen]
  rfl

end StringLiteral

namespace SpecialNumber

theorem ofFront?_spelling (s : SpecialNumber) (rest : List Byte) :
    ofFront? (s.spelling ++ rest) = some s := by
  cases s <;> rfl

theorem exists_of_ofFront? {bytes : List Byte} {s : SpecialNumber} (h : ofFront? bytes = some s) :
    ∃ rest, bytes = s.spelling ++ rest := by
  have hfound : s.spelling.isPrefixOf bytes = true := by simpa using List.find?_some h
  obtain ⟨rest, hrest⟩ := List.isPrefixOf_iff_prefix.1 hfound
  exact ⟨rest, hrest.symm⟩

theorem exists_mantissa (n : Decimal) (rest : List Byte) :
    ∃ b tail, n.text ++ rest = n.sign.text ++ b :: tail ∧ (b.isDigit = true ∨ b = Byte.dot) := by
  have htext : n.text ++ rest = n.sign.text ++ (n.whole.text ++ (Decimal.fractionText n.fraction ++
      (Decimal.exponentText n.exponent ++ rest))) := by simp [Decimal.text]
  rw [htext]
  cases hw : n.whole with
  | absent =>
    obtain ⟨d, hd⟩ := Option.ne_none_iff_exists'.1 (n.mantissa hw)
    rw [hd]
    exact ⟨Byte.dot, _, rfl, .inr rfl⟩
  | zero => exact ⟨Byte.zero, _, rfl, .inl (by decide)⟩
  | positive d _ =>
    obtain ⟨b, tail, hb⟩ := List.exists_cons_of_ne_nil d.ne_nil
    refine ⟨b, tail ++ (Decimal.fractionText n.fraction ++
      (Decimal.exponentText n.exponent ++ rest)), by rw [Whole.text, hb]; rfl, .inl ?_⟩
    exact d.digit b (by rw [hb]; exact List.mem_cons_self)

theorem ofFront?_decimal (n : Decimal) (rest : List Byte) : ofFront? (n.text ++ rest) = none := by
  obtain ⟨b, tail, htext, hb⟩ := exists_mantissa n rest
  rw [htext]
  have hne : b ≠ 0x49 ∧ b ≠ 0x4e ∧ b ≠ Byte.minus := by
    rcases hb with hd | rfl
    · refine ⟨?_, ?_, ?_⟩ <;> (rintro rfl; exact absurd hd (by decide))
    · decide
  cases h : ofFront? (n.sign.text ++ b :: tail) with
  | none => rfl
  | some s =>
    exfalso
    obtain ⟨front, hfront⟩ := exists_of_ofFront? h
    have hhead := congrArg List.head? hfront
    generalize n.sign = sign at hfront hhead
    match s, sign with
    | .infinity, .absent => exact hne.1 (Option.some.inj hhead)
    | .infinity, .minus => exact absurd (Option.some.inj hhead) (by decide)
    | .infinity, .plus => exact absurd (Option.some.inj hhead) (by decide)
    | .nan, .absent => exact hne.2.1 (Option.some.inj hhead)
    | .nan, .minus => exact absurd (Option.some.inj hhead) (by decide)
    | .nan, .plus => exact absurd (Option.some.inj hhead) (by decide)
    | .negativeInfinity, .absent => exact hne.2.2 (Option.some.inj hhead)
    | .negativeInfinity, .minus =>
      exact hne.1 (Option.some.inj (congrArg (fun bytes => bytes.tail.head?) hfront))
    | .negativeInfinity, .plus => exact absurd (Option.some.inj hhead) (by decide)

end SpecialNumber

namespace Number

theorem scan_special (o : Options) (l : Limits) (s : SpecialNumber) (rest : List Byte) :
    Number.scan o l (s.spelling ++ rest) =
      if o.infinityAndNan then .ok (s.toNumber, s.spelling.length)
      else .error (.here (.notEnabled .infinityAndNan) 0) := by
  rw [Number.scan, SpecialNumber.ofFront?_spelling]

theorem scan_of_no_special {o : Options} {l : Limits} {bytes : List Byte}
    (h : SpecialNumber.ofFront? bytes = none) :
    Number.scan o l bytes =
      match Numeral.scan o bytes with
      | .error f => .error f
      | .ok (numeral, n) =>
        match l.violation? .numberLength n with
        | some cause => .error ⟨cause, 0, n⟩
        | none =>
          if numeral.isInteger && Numeral.maxIntegerDigits < numeral.whole.length then
            .error ⟨.integerTooLong, 0, n⟩
          else .ok (numeral.toNumber, n) := by
  unfold Number.scan
  split
  · rename_i special hspecial
    rw [h] at hspecial
    cases hspecial
  · rfl

theorem scan_within {o : Options} {l : Limits} {n : Decimal} {rest : List Byte}
    (hn : n.Admitted o) (hrest : (Scalar.decimal n).EndsBefore rest)
    (h : (Scalar.decimal n).Within l) :
    Number.scan o l (n.text ++ rest) = .ok (n.numeral.toNumber, n.text.length) := by
  rw [scan_of_no_special (SpecialNumber.ofFront?_decimal n rest), Numeral.scan_decimal hn hrest]
  have hlength : l.violation? .numberLength n.text.length = none :=
    Limits.violation?_eq_none_iff.2 (Scalar.within_decimal.1 h).1
  have hdigits : ¬ (n.numeral.isInteger &&
      decide (Numeral.maxIntegerDigits < n.numeral.whole.length)) = true := by
    rw [Bool.and_eq_true, decide_eq_true_eq, not_and, Nat.not_lt]
    exact (Scalar.within_decimal.1 h).2
  simp only [hlength]
  rw [if_neg hdigits]

theorem scan_beyond {o : Options} {l : Limits} {n : Decimal} {rest : List Byte}
    (hn : n.Admitted o) (hrest : (Scalar.decimal n).EndsBefore rest)
    (h : ¬ (Scalar.decimal n).Within l) :
    ∃ f, Number.scan o l (n.text ++ rest) = .error f ∧ f.offset = 0 ∧
      Beyond l (.decimal n) f.cause := by
  rw [scan_of_no_special (SpecialNumber.ofFront?_decimal n rest), Numeral.scan_decimal hn hrest]
  dsimp only
  cases hlength : l.violation? .numberLength n.text.length with
  | some cause => exact ⟨_, rfl, rfl, .of_violation rfl hlength⟩
  | none =>
    have hfits := Limits.violation?_eq_none_iff.1 hlength
    have hdigits : (n.numeral.isInteger &&
        decide (Numeral.maxIntegerDigits < n.numeral.whole.length)) = true := by
      refine by_contra fun hfew => h (Scalar.within_decimal.2 ⟨hfits, fun hint => ?_⟩)
      rw [Bool.and_eq_true, decide_eq_true_eq, not_and, Nat.not_lt] at hfew
      exact hfew hint
    dsimp only
    rw [if_pos hdigits]
    refine ⟨_, rfl, rfl, .long ?_⟩
    rintro m k ⟨⟩
    exact hfits

end Number

namespace Token.Kind

theorem scan_mark (o : Options) (l : Limits) (m : Mark) (rest : List Byte) :
    scan o l (m.byte :: rest) = .ok (.mark m, 1) := by
  simp [scan]

theorem scan_quote (o : Options) (l : Limits) (q : Quote) (rest : List Byte) :
    scan o l (q.byte :: rest) =
      (StringLiteral.scan o l q.byte rest).map fun (s, n) => (.string s, n) := by
  cases q <;> rfl

def leadsNumber (b : Byte) : Bool :=
  b.isDigit || b == Byte.minus || b == Byte.plus || b == Byte.dot || b == 0x49 || b == 0x4e

theorem leadsNumber_of_ofFront? {b : Byte} {rest : List Byte} {s : SpecialNumber}
    (h : SpecialNumber.ofFront? (b :: rest) = some s) : leadsNumber b = true := by
  have hfront : s.spelling.isPrefixOf (b :: rest) = true := by
    simpa using List.find?_some h
  cases s <;>
  · simp only [SpecialNumber.spelling, Byte.ascii, List.map_cons, List.isPrefixOf,
      Bool.and_eq_true, beq_iff_eq] at hfront
    rw [← hfront.1]
    decide

theorem leadsNumber_of_startsNumber {b : Byte} {rest : List Byte}
    (h : startsNumber b (b :: rest) = true) : leadsNumber b = true := by
  unfold startsNumber at h
  rw [Bool.or_eq_true] at h
  rcases h with h | h
  · simp [leadsNumber, h]
  · obtain ⟨s, hs⟩ := Option.isSome_iff_exists.1 h
    exact leadsNumber_of_ofFront? hs

theorem ofByte?_of_leadsNumber {b : Byte} (h : leadsNumber b = true) : Mark.ofByte? b = none := by
  cases hm : Mark.ofByte? b with
  | none => rfl
  | some m =>
    rw [Mark.ofByte?_eq_some hm] at h
    cases m <;> exact absurd h (by decide)

theorem not_quote_of_leadsNumber {b : Byte} (h : leadsNumber b = true) :
    ¬ (b = Byte.quote || b = Byte.apostrophe) = true := by
  simp only [Bool.or_eq_true, decide_eq_true_eq]
  rintro (rfl | rfl) <;> exact absurd h (by decide)

theorem scan_number {o : Options} {l : Limits} {b : Byte} {rest : List Byte}
    (h : startsNumber b (b :: rest) = true) :
    scan o l (b :: rest) = (Number.scan o l (b :: rest)).map fun (x, n) => (.number x, n) := by
  have hlead := leadsNumber_of_startsNumber h
  simp only [scan, ofByte?_of_leadsNumber hlead, if_neg (not_quote_of_leadsNumber hlead), if_pos h]

theorem scan_word {o : Options} {l : Limits} {b : Byte} (rest : List Byte)
    (h : startsWord b = true) : scan o l (b :: rest) = scanWord (b :: rest) := by
  have hb : b = 0x74 ∨ b = 0x66 ∨ b = 0x6e := by
    simpa [startsWord, or_assoc] using h
  have hmark : Mark.ofByte? b = none := by rcases hb with rfl | rfl | rfl <;> rfl
  have hquote : ¬ (b = Byte.quote || b = Byte.apostrophe) = true := by
    rcases hb with rfl | rfl | rfl <;> decide
  have hnumber : ¬ startsNumber b (b :: rest) = true := by
    intro hn
    have hlead := leadsNumber_of_startsNumber hn
    rcases hb with rfl | rfl | rfl <;> exact absurd hlead (by decide)
  simp only [scan, hmark, if_neg hquote, if_neg hnumber, if_pos h]

theorem scanWord_text (w : Word) (rest : List Byte) :
    scanWord (w.text ++ rest) = .ok ((Scalar.word w).kind, w.text.length) := by
  match w with
  | .bool true => rfl
  | .bool false => rfl
  | .null => rfl

theorem scanWord_cases (bytes : List Byte) :
    (∃ (w : Word) (rest : List Byte), bytes = w.text ++ rest) ∨
      scanWord bytes = .error (.here .invalidLiteral 0) := by
  unfold scanWord
  cases h : words.find? fun w => w.1.isPrefixOf bytes with
  | none => exact .inr rfl
  | some w =>
    left
    have hfound : w.1.isPrefixOf bytes = true := by simpa using List.find?_some h
    obtain ⟨rest, hrest⟩ := List.isPrefixOf_iff_prefix.1 hfound
    have hmem := List.mem_of_find?_eq_some h
    simp only [words, List.mem_cons, List.not_mem_nil, or_false] at hmem
    rcases hmem with rfl | rfl | rfl
    · exact ⟨.bool true, rest, hrest.symm⟩
    · exact ⟨.bool false, rest, hrest.symm⟩
    · exact ⟨.null, rest, hrest.symm⟩

theorem scan_special (o : Options) (l : Limits) (s : SpecialNumber) (rest : List Byte) :
    scan o l (s.spelling ++ rest) =
      (Number.scan o l (s.spelling ++ rest)).map fun (x, n) => (.number x, n) := by
  have hs := SpecialNumber.ofFront?_spelling s rest
  obtain ⟨b, tail, hb⟩ : ∃ b tail, s.spelling ++ rest = b :: tail := by
    cases s <;> exact ⟨_, _, rfl⟩
  rw [hb] at hs ⊢
  apply scan_number
  rw [startsNumber, hs]
  simp

theorem startsNumber_decimal (n : Decimal) (rest : List Byte) :
    ∃ b tail, n.text ++ rest = b :: tail ∧ startsNumber b (b :: tail) = true := by
  obtain ⟨b, tail, htext, hb⟩ := SpecialNumber.exists_mantissa n rest
  rw [htext]
  cases n.sign with
  | absent =>
    refine ⟨b, tail, rfl, ?_⟩
    rcases hb with hb | rfl
    · simp [startsNumber, hb]
    · simp [startsNumber]
  | minus => exact ⟨Byte.minus, b :: tail, rfl, by simp [startsNumber]⟩
  | plus => exact ⟨Byte.plus, b :: tail, rfl, by simp [startsNumber]⟩

theorem scan_decimal (o : Options) (l : Limits) (n : Decimal) (rest : List Byte) :
    scan o l (n.text ++ rest) =
      (Number.scan o l (n.text ++ rest)).map fun (x, k) => (.number x, k) := by
  obtain ⟨b, tail, htext, hb⟩ := startsNumber_decimal n rest
  rw [htext]
  exact scan_number hb

theorem scan_wordText (o : Options) (l : Limits) (w : Word) (rest : List Byte) :
    scan o l (w.text ++ rest) = .ok ((Scalar.word w).kind, w.text.length) := by
  rw [← scanWord_text w rest]
  match w with
  | .bool true => exact scan_word _ rfl
  | .bool false => exact scan_word _ rfl
  | .null => exact scan_word _ rfl

theorem scan_within {o : Options} {l : Limits} {x : Lexeme} {rest : List Byte}
    (hx : x.Admitted o .paired) (hl : x.Within l) (hrest : x.EndsBefore rest) :
    scan o l (x.text ++ rest) = .ok (x.kind, x.text.length) := by
  match x with
  | .mark m => exact scan_mark o l m rest
  | .scalar (.word w) => exact scan_wordText o l w rest
  | .scalar (.special s) =>
    have hon : o.infinityAndNan = true := hx
    have hscan := scan_special o l s rest
    rw [Number.scan_special, if_pos hon] at hscan
    exact hscan
  | .scalar (.decimal n) =>
    have hscan := scan_decimal o l n rest
    rw [Number.scan_within hx hrest hl] at hscan
    exact hscan
  | .scalar (.string q) =>
    have hscan := scan_quote o l q.quote (q.body ++ rest)
    have hlength : l.violation? .stringLength q.chars.length = none :=
      Limits.violation?_eq_none_iff.2 (Scalar.within_string.1 hl)
    rw [StringLiteral.scan_quoted hx, hlength] at hscan
    exact hscan

theorem scan_beyond {o : Options} {l : Limits} {x : Scalar} {rest : List Byte}
    (hx : x.Admitted o .paired) (hl : ¬ x.Within l) (hrest : x.EndsBefore rest) :
    ∃ f, scan o l (x.text ++ rest) = .error f ∧ f.offset = 0 ∧ Beyond l x f.cause := by
  cases x with
  | word w => exact absurd trivial hl
  | special s => exact absurd trivial hl
  | decimal n =>
    obtain ⟨f, hf, hoffset, hbeyond⟩ := Number.scan_beyond hx hrest hl
    have hscan := scan_decimal o l n rest
    rw [hf] at hscan
    exact ⟨f, hscan, hoffset, hbeyond⟩
  | string q =>
    have hscan := scan_quote o l q.quote (q.body ++ rest)
    rw [StringLiteral.scan_quoted hx] at hscan
    cases hlength : l.violation? .stringLength q.chars.length with
    | none => exact absurd (Scalar.within_string.2 (Limits.violation?_eq_none_iff.1 hlength)) hl
    | some cause =>
      rw [hlength] at hscan
      exact ⟨_, hscan, rfl, .of_violation rfl hlength⟩

theorem startsWord_text (w : Word) : ∃ b tail, w.text = b :: tail ∧ startsWord b = true := by
  match w with
  | .bool true => exact ⟨_, _, rfl, rfl⟩
  | .bool false => exact ⟨_, _, rfl, rfl⟩
  | .null => exact ⟨_, _, rfl, rfl⟩

def leads (b : Byte) : Scalar → Bool
  | .word _ => startsWord b
  | .special _ | .decimal _ => leadsNumber b
  | .string q => b == q.quote.byte

theorem exists_leads (x : Scalar) : ∃ b tail, x.text = b :: tail ∧ leads b x = true := by
  cases x with
  | word w => exact startsWord_text w
  | special s => cases s <;> exact ⟨_, _, rfl, by decide⟩
  | decimal n =>
    obtain ⟨b, tail, htext, hb⟩ := startsNumber_decimal n []
    rw [List.append_nil] at htext
    exact ⟨b, tail, htext, leadsNumber_of_startsNumber hb⟩
  | string q => exact ⟨_, _, rfl, beq_self_eq_true _⟩

theorem exists_text_eq_cons (x : Lexeme) : ∃ b tail, x.text = b :: tail := by
  cases x with
  | mark m => exact ⟨_, _, rfl⟩
  | scalar x =>
    obtain ⟨b, tail, htext, -⟩ := exists_leads x
    exact ⟨b, tail, htext⟩

def separators : List Byte :=
  [Byte.space, Byte.tab, Byte.carriageReturn, Byte.lineFeed] ++ Mark.all.map Mark.byte

theorem mem_separators_of_isBlank {b : Byte} (h : b.isBlank = true) : b ∈ separators := by
  have hcases : ((b = Byte.space ∨ b = Byte.tab) ∨ b = Byte.carriageReturn) ∨
      b = Byte.lineFeed := by simpa [Byte.isBlank] using h
  rcases hcases with ((rfl | rfl) | rfl) | rfl <;> decide

theorem byte_mem_separators (m : Mark) : m.byte ∈ separators := by
  cases m <;> decide

theorem leads_eq_false {b : Byte} (h : b ∈ separators) (x : Scalar) : leads b x = false := by
  have hall : separators.all (fun b => startsWord b = false ∧ leadsNumber b = false ∧
      b ≠ Byte.quote ∧ b ≠ Byte.apostrophe) = true := by decide
  obtain ⟨hword, hnumber, hdouble, hsingle⟩ := of_decide_eq_true (List.all_eq_true.1 hall b h)
  match x with
  | .word w => exact hword
  | .special s => exact hnumber
  | .decimal n => exact hnumber
  | .string ⟨.double, _⟩ => exact beq_eq_false_iff_ne.2 hdouble
  | .string ⟨.single, _⟩ => exact beq_eq_false_iff_ne.2 hsingle

theorem continuedBy_eq_false {b : Byte} (h : b ∈ separators) (n : Decimal) :
    n.continuedBy b = false := by
  have hall : separators.all (fun b =>
      b.isDigit = false ∧ b ≠ Byte.dot ∧ b.isExponentMark = false) = true := by decide
  obtain ⟨hdigit, hdot, hmark⟩ := of_decide_eq_true (List.all_eq_true.1 hall b h)
  exact Decimal.continuedBy_eq_false.2 ⟨hdigit, fun _ _ => hdot, fun _ => hmark⟩

theorem stops_isBlank_lexeme (x : Lexeme) (rest : List Byte) :
    Stops Byte.isBlank (x.text ++ rest) := by
  cases x with
  | mark m => cases m <;> exact (stops_cons _ _ _).2 (by decide)
  | scalar x =>
    obtain ⟨b, tail, htext, hlead⟩ := exists_leads x
    rw [Lexeme.text, htext]
    refine (stops_cons _ _ _).2 (eq_false_of_ne_true fun hblank => ?_)
    exact absurd (leads_eq_false (mem_separators_of_isBlank hblank) x) (by simp [hlead])

/-- The token is refused with this fault, at a byte up to which some literal goes. -/
def RefusedWith (o : Options) (l : Limits) (bytes : List Byte) (f : Fault) : Prop :=
  scan o l bytes = .error f ∧ ∃ (x : Scalar) (front rest : List Byte), x.Admitted o .free ∧
    bytes = front ++ rest ∧ f.offset = front.length ∧ front <+: x.text

theorem RefusedWith.of_zero {o : Options} {l : Limits} {bytes : List Byte} {f : Fault}
    (h : scan o l bytes = .error f) (hf : f.offset = 0) : RefusedWith o l bytes f :=
  ⟨h, .word .null, [], bytes, trivial, rfl, hf, List.nil_prefix⟩

theorem quote_cases (o : Options) (l : Limits) (q : Quote) (bytes : List Byte) :
    (∃ (s : Quoted) (rest : List Byte), s.Admitted o .paired ∧ q.byte :: bytes = s.text ++ rest) ∨
      ∃ f, RefusedWith o l (q.byte :: bytes) f ∧ f.cause.isSpelling = true := by
  have hscan := scan_quote o l q bytes
  by_cases hq : q.Admitted o
  · rw [StringLiteral.scan_on hq] at hscan
    cases hbody : StringLiteral.scanBody q.byte bytes with
    | ok result =>
      obtain ⟨text, n⟩ := result
      obtain ⟨units, rest, hunits, rfl, -, -⟩ := StringLiteral.exists_units_of_scanBody hbody
      exact .inl ⟨⟨q, units⟩, rest, ⟨hq, hunits⟩, by simp [Quoted.text, Quoted.body]⟩
    | error f =>
      right
      rw [hbody] at hscan
      obtain ⟨hk, units, hunits, hfront⟩ := StringLiteral.continuable_of_scanBody hbody
      refine ⟨f.shift 1, ⟨hscan, .string ⟨q, units⟩, q.byte :: bytes.take f.offset,
        bytes.drop f.offset, ⟨hq, hunits⟩, by simp, ?_, ?_⟩,
        StringLiteral.blames_scanBody q.byte bytes f hbody⟩
      · simp [Fault.shift, Nat.min_eq_left hk, Nat.add_comm]
      · exact List.cons_prefix_cons.2 ⟨rfl, hfront.trans (List.prefix_append _ _)⟩
  · rw [StringLiteral.scan_off hq] at hscan
    exact .inr ⟨_, .of_zero hscan rfl, rfl⟩

theorem number_cases {o : Options} {l : Limits} {b : Byte} {bytes : List Byte}
    (h : startsNumber b (b :: bytes) = true) :
    (∃ (x : Scalar) (rest : List Byte), x.Admitted o .paired ∧ b :: bytes = x.text ++ rest ∧
      x.EndsBefore rest) ∨ ∃ f, RefusedWith o l (b :: bytes) f ∧ f.cause.isSpelling = true := by
  have hscan := scan_number (o := o) (l := l) h
  cases hspecial : SpecialNumber.ofFront? (b :: bytes) with
  | some s =>
    obtain ⟨rest, hrest⟩ := SpecialNumber.exists_of_ofFront? hspecial
    by_cases hon : o.infinityAndNan = true
    · exact .inl ⟨.special s, rest, hon, hrest, trivial⟩
    · rw [hrest, Number.scan_special, if_neg hon, ← hrest] at hscan
      exact .inr ⟨_, .of_zero hscan rfl, rfl⟩
  | none =>
    rcases Numeral.scan_cases o (b :: bytes) with ⟨n, rest, hn, htext, hstop⟩ |
      ⟨n, front, rest, f, hn, hf, htext, hoffset, hfront⟩
    · exact .inl ⟨.decimal n, rest, hn, htext, hstop⟩
    · rw [Number.scan_of_no_special hspecial, hf] at hscan
      exact .inr ⟨f, ⟨hscan, .decimal n, front, rest, hn, htext, hoffset, hfront⟩,
        Cause.isSpelling_of_isNotation (Numeral.blames_scan o _ f hf)⟩

theorem word_cases {o : Options} {l : Limits} {b : Byte} (bytes : List Byte)
    (h : startsWord b = true) :
    (∃ (w : Word) (rest : List Byte), b :: bytes = w.text ++ rest) ∨
      ∃ f, RefusedWith o l (b :: bytes) f ∧ f.cause.isSpelling = true := by
  rcases scanWord_cases (b :: bytes) with hword | hfault
  · exact .inl hword
  · exact .inr ⟨_, .of_zero ((scan_word bytes h).trans hfault) rfl, rfl⟩

/-- What stands at a byte: a lexeme that ends where nothing goes on with it, whatever its size,
or text that begins no lexeme, which is no matter of limits. -/
theorem lexeme_cases (o : Options) (l : Limits) (b : Byte) (bytes : List Byte) :
    (∃ (x : Lexeme) (rest : List Byte), x.Admitted o .paired ∧ b :: bytes = x.text ++ rest ∧
      x.EndsBefore rest) ∨ ∃ f, RefusedWith o l (b :: bytes) f ∧ f.cause.isSpelling = true := by
  cases hm : Mark.ofByte? b with
  | some m =>
    left
    exact ⟨.mark m, bytes, trivial, by rw [Mark.ofByte?_eq_some hm]; rfl, trivial⟩
  | none =>
    by_cases hquote : (b = Byte.quote || b = Byte.apostrophe) = true
    · obtain ⟨q, rfl⟩ : ∃ q : Quote, b = q.byte := by
        simp only [Bool.or_eq_true, decide_eq_true_eq] at hquote
        rcases hquote with rfl | rfl
        · exact ⟨.double, rfl⟩
        · exact ⟨.single, rfl⟩
      refine (quote_cases o l q bytes).imp_left ?_
      rintro ⟨s, rest, hs, htext⟩
      exact ⟨.scalar (.string s), rest, hs, htext, trivial⟩
    · by_cases hnumber : startsNumber b (b :: bytes) = true
      · refine (number_cases hnumber).imp_left ?_
        rintro ⟨x, rest, hx, htext, hrest⟩
        exact ⟨.scalar x, rest, hx, htext, hrest⟩
      · by_cases hword : startsWord b = true
        · refine (word_cases bytes hword).imp_left ?_
          rintro ⟨w, rest, htext⟩
          exact ⟨.scalar (.word w), rest, trivial, htext, trivial⟩
        · have hscan : scan o l (b :: bytes) = .error (.here (.unexpectedCharacter b) 0) := by
            simp only [scan, hm, if_neg hquote, if_neg hnumber, if_neg hword]
          exact .inr ⟨_, .of_zero hscan rfl, rfl⟩

/-- The lexer at a byte: it reads a lexeme that keeps the limits, or refuses. -/
theorem scan_cases (o : Options) (l : Limits) (b : Byte) (bytes : List Byte) :
    (∃ (x : Lexeme) (rest : List Byte), x.Admitted o .paired ∧ x.Within l ∧
      b :: bytes = x.text ++ rest ∧ x.EndsBefore rest) ∨ ∃ f, RefusedWith o l (b :: bytes) f := by
  rcases lexeme_cases o l b bytes with ⟨x, rest, hx, htext, hrest⟩ | ⟨f, hrefused, -⟩
  · by_cases hl : x.Within l
    · exact .inl ⟨x, rest, hx, hl, htext, hrest⟩
    · right
      rw [htext]
      cases x with
      | mark m => exact absurd trivial hl
      | scalar x =>
        obtain ⟨f, hf, hoffset, -⟩ := scan_beyond hx hl hrest
        exact ⟨f, .of_zero hf hoffset⟩
  · exact .inr ⟨f, hrefused⟩

theorem exists_broken {o : Options} {l : Limits} {bytes : List Byte} {f : Fault}
    (h : scan o l bytes = .error f) (hlimit : f.cause.kind = .limit) :
    ∃ (x : Scalar) (rest : List Byte) (m : Measure) (n bound : Nat), bytes = x.text ++ rest ∧
      x.Admitted o .paired ∧ x.EndsBefore rest ∧ x.measured = some (m, n) ∧ bound ∈ l.bound m ∧
      bound < n ∧ f.offset = 0 ∧ f.cause = .limitExceeded m n bound := by
  cases bytes with
  | nil => cases h
  | cons b tail =>
    rcases lexeme_cases o l b tail with ⟨x, rest, hx, htext, hrest⟩ | ⟨f', hrefused, hspelling⟩
    · rw [htext] at h ⊢
      by_cases hl : x.Within l
      · rw [scan_within hx hl hrest] at h
        cases h
      · cases x with
        | mark m => exact absurd trivial hl
        | scalar x =>
          obtain ⟨f', hf', hoffset, hbeyond⟩ := scan_beyond hx hl hrest
          obtain rfl := Except.error.inj (hf'.symm.trans h)
          generalize hcause : f'.cause = cause at hbeyond hlimit
          cases hbeyond with
          | long hfits => cases hlimit
          | broken hm hbound hlt =>
            exact ⟨x, rest, _, _, _, rfl, hx, hrest, hm, hbound, hlt, hoffset, rfl⟩
    · obtain rfl := Except.error.inj (hrefused.1.symm.trans h)
      rw [Cause.kind_of_isSpelling hspelling] at hlimit
      cases hlimit

end Token.Kind

end LocatedJson
