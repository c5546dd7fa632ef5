import LocatedJson.Proofs.Grammar.Context
import LocatedJson.Proofs.Parsing.Complete

/-! A follower of one byte at a time, with a stack of the open structures. It is lenient within
tokens, but it follows every document to the end; so no document goes on with a byte that it
refuses. -/
namespace LocatedJson.Grammar

/-- What may come between two tokens. -/
inductive Due where
  | value
  | first
  | key
  | colon
  | separator
  deriving DecidableEq

inductive NumberPart where
  | sign
  | whole
  | fraction
  | mark
  | exponent

inductive Mode where
  | between (due : Due)
  | string (q : Quote) (due : Due)
  | escape (q : Quote) (due : Due)
  | number (part : NumberPart)
  | letters (rest : List Byte)

structure Follower where
  stack : List Structure
  mode : Mode

namespace Follower

def spellings : List (List Byte) :=
  [Word.text (.bool true), Word.text (.bool false), Word.text .null,
    SpecialNumber.spelling .infinity, SpecialNumber.spelling .nan]

def beginString (stack : List Structure) (due : Due) (b : Byte) : Option Follower :=
  if b = Byte.quote then some ⟨stack, .string .double due⟩
  else if b = Byte.apostrophe then some ⟨stack, .string .single due⟩
  else none

def beginLiteral (stack : List Structure) (b : Byte) : Option Follower :=
  if b.isDigit then some ⟨stack, .number .whole⟩
  else if b = Byte.minus || b = Byte.plus then some ⟨stack, .number .sign⟩
  else if b = Byte.dot then some ⟨stack, .number .fraction⟩
  else (spellings.find? (·.head? == some b)).map fun w => ⟨stack, .letters w.tail⟩

def beginValue (stack : List Structure) (b : Byte) : Option Follower :=
  match Mark.ofByte? b with
  | some .openBrace => some ⟨.object :: stack, .between .first⟩
  | some .openBracket => some ⟨.array :: stack, .between .first⟩
  | some _ => none
  | none => (beginString stack .separator b).or (beginLiteral stack b)

def dueBehindComma : Structure → Due
  | .object => .key
  | .array => .value

def beginItem (s : Structure) (stack : List Structure) (b : Byte) : Option Follower :=
  match s with
  | .object => beginString stack .colon b
  | .array => beginValue stack b

def beginToken : Due → List Structure → Byte → Option Follower
  | .value, stack, b => beginValue stack b
  | .first, s :: outer, b =>
    if b = s.closing.byte then some ⟨outer, .between .separator⟩ else beginItem s (s :: outer) b
  | .key, stack, b => beginString stack .colon b
  | .colon, stack, b => if b = Mark.colon.byte then some ⟨stack, .between .value⟩ else none
  | .separator, s :: outer, b =>
    if b = Mark.comma.byte then some ⟨s :: outer, .between (dueBehindComma s)⟩
    else if b = s.closing.byte then some ⟨outer, .between .separator⟩
    else none
  | _, [], _ => none

def stepBetween (stack : List Structure) (due : Due) (b : Byte) : Option Follower :=
  if b.isBlank then some ⟨stack, .between due⟩ else beginToken due stack b

def stepNumber : NumberPart → Byte → Option Mode
  | .sign, b =>
    if b.isDigit then some (.number .whole)
    else if b = Byte.dot then some (.number .fraction)
    else if b = 0x49 then some (.letters (SpecialNumber.spelling .infinity).tail)
    else none
  | .whole, b =>
    if b.isDigit then some (.number .whole)
    else if b = Byte.dot then some (.number .fraction)
    else if b.isExponentMark then some (.number .mark)
    else none
  | .fraction, b =>
    if b.isDigit then some (.number .fraction)
    else if b.isExponentMark then some (.number .mark)
    else none
  | .mark, b =>
    if b.isDigit || b = Byte.minus || b = Byte.plus then some (.number .exponent) else none
  | .exponent, b => if b.isDigit then some (.number .exponent) else none

def step : Follower → Byte → Option Follower
  | ⟨stack, .between due⟩, b => stepBetween stack due b
  | ⟨stack, .string q due⟩, b =>
    if b = q.byte then some ⟨stack, .between due⟩
    else if b = Byte.backslash then some ⟨stack, .escape q due⟩
    else some ⟨stack, .string q due⟩
  | ⟨stack, .escape q due⟩, _ => some ⟨stack, .string q due⟩
  | ⟨stack, .number part⟩, b =>
    match stepNumber part b with
    | some mode => some ⟨stack, mode⟩
    | none => stepBetween stack .separator b
  | ⟨stack, .letters []⟩, b => stepBetween stack .separator b
  | ⟨stack, .letters (c :: rest)⟩, b => if b = c then some ⟨stack, .letters rest⟩ else none

def reads : Follower → List Byte → Bool
  | _, [] => true
  | r, b :: rest =>
    match step r b with
    | none => false
    | some r' => reads r' rest

theorem reads_cons (r : Follower) (b : Byte) (rest : List Byte) :
    r.reads (b :: rest) = (r.step b).any (·.reads rest) := by
  rw [reads]
  cases r.step b <;> rfl

theorem reads_step {r r' : Follower} {b : Byte} (h : r.step b = some r') (rest : List Byte) :
    r.reads (b :: rest) = r'.reads rest := by
  rw [reads_cons, h]
  rfl

theorem reads_front {r : Follower} {front more : List Byte} (h : r.reads (front ++ more) = true) :
    r.reads front = true := by
  induction front generalizing r with
  | nil => rfl
  | cons b front ih =>
    rw [List.cons_append, reads_cons] at h
    rw [reads_cons]
    obtain ⟨r', hr, hreads⟩ := Option.any_eq_true _ _ |>.1 h
    rw [hr]
    exact ih hreads

/-- Two followers that take the same steps read the same. -/
theorem reads_congr {r r' : Follower} {rest : List Byte}
    (h : ∀ b ∈ rest.head?, r.step b = r'.step b) : r.reads rest = r'.reads rest := by
  cases rest with
  | nil => rfl
  | cons b rest => rw [reads_cons, reads_cons, h b rfl]

variable (stack : List Structure) (rest : List Byte)

theorem reads_gap (due : Due) (gap : Gap) :
    (Follower.mk stack (.between due)).reads (gap.bytes ++ rest) =
      (Follower.mk stack (.between due)).reads rest := by
  obtain ⟨bytes, hblank⟩ := gap
  induction bytes with
  | nil => rfl
  | cons b bytes ih =>
    have hstep : (Follower.mk stack (.between due)).step b = some ⟨stack, .between due⟩ :=
      if_pos (mem_blanks_iff.1 (hblank b List.mem_cons_self))
    rw [List.cons_append, reads_step hstep]
    exact ih fun b hb => hblank b (List.mem_cons_of_mem _ hb)

theorem reads_plain {q : Quote} {due : Due} {bytes : List Byte}
    (h : ∀ b ∈ bytes, b ≠ q.byte ∧ b ≠ Byte.backslash) :
    (Follower.mk stack (.string q due)).reads (bytes ++ rest) =
      (Follower.mk stack (.string q due)).reads rest := by
  induction bytes with
  | nil => rfl
  | cons b bytes ih =>
    obtain ⟨hq, hs⟩ := h b List.mem_cons_self
    have hstep : (Follower.mk stack (.string q due)).step b = some ⟨stack, .string q due⟩ := by
      rw [step, if_neg hq, if_neg hs]
    rw [List.cons_append, reads_step hstep]
    exact ih fun b hb => h b (List.mem_cons_of_mem _ hb)

theorem reads_escape {q : Quote} {due : Due} (b : Byte) :
    (Follower.mk stack (.string q due)).reads (Byte.backslash :: b :: rest) =
      (Follower.mk stack (.string q due)).reads rest := by
  have hstep : (Follower.mk stack (.string q due)).step Byte.backslash =
      some ⟨stack, .escape q due⟩ := by cases q <;> rfl
  rw [reads_step hstep]
  rfl

theorem reads_hexDigits {q : Quote} {due : Due} (d : HexDigits) :
    (Follower.mk stack (.string q due)).reads (d.escape ++ rest) =
      (Follower.mk stack (.string q due)).reads rest := by
  have hplain : ∀ b ∈ d.bytes, b ≠ q.byte ∧ b ≠ Byte.backslash := by
    intro b hb
    have hhex := d.hex b hb
    refine ⟨?_, ?_⟩
    · rintro rfl
      cases q <;> exact absurd hhex (by decide)
    · rintro rfl
      exact absurd hhex (by decide)
  rw [HexDigits.escape, List.cons_append, List.cons_append, reads_escape, reads_plain _ _ hplain]

theorem reads_spelling {q : Quote} {due : Due} {u : Spelling} (hu : u.Admitted .free q) :
    (Follower.mk stack (.string q due)).reads (u.text ++ rest) =
      (Follower.mk stack (.string q due)).reads rest := by
  cases u with
  | plain c =>
    refine reads_plain stack rest fun b hb => ?_
    have hplain := StringLiteral.isPlain_of_mem_encodeChar hu hb
    rw [StringLiteral.isPlain_byte] at hplain
    simp only [Bool.and_eq_true, bne_iff_ne] at hplain
    exact ⟨hplain.2, hplain.1.1⟩
  | letter e => exact reads_escape stack rest e.byte
  | code d => exact reads_hexDigits stack rest d
  | pair high low =>
    rw [Spelling.text, List.append_assoc, reads_hexDigits, reads_hexDigits]

theorem reads_body {q : Quoted} {due : Due} (hq : ∀ u ∈ q.units, u.Admitted .free q.quote) :
    (Follower.mk stack (.string q.quote due)).reads (q.body ++ rest) =
      (Follower.mk stack (.between due)).reads rest := by
  obtain ⟨quote, units⟩ := q
  rw [Quoted.body, List.append_assoc]
  induction units with
  | nil =>
    have hstep : (Follower.mk stack (.string quote due)).step quote.byte =
        some ⟨stack, .between due⟩ := if_pos rfl
    exact reads_step hstep rest
  | cons u units ih =>
    rw [List.flatMap_cons, List.append_assoc, reads_spelling _ _ (hq u List.mem_cons_self)]
    exact ih fun u hu => hq u (List.mem_cons_of_mem _ hu)

section Numbers

theorem reads_digits {part : NumberPart} {bytes : List Byte}
    (hpart : ∀ b : Byte, b.isDigit = true → stepNumber part b = some (.number part))
    (h : ∀ b ∈ bytes, b.isDigit = true) :
    (Follower.mk stack (.number part)).reads (bytes ++ rest) =
      (Follower.mk stack (.number part)).reads rest := by
  induction bytes with
  | nil => rfl
  | cons b bytes ih =>
    have hstep : (Follower.mk stack (.number part)).step b = some ⟨stack, .number part⟩ := by
      rw [step, hpart b (h b List.mem_cons_self)]
    rw [List.cons_append, reads_step hstep]
    exact ih fun b hb => h b (List.mem_cons_of_mem _ hb)

theorem stepNumber_whole (b : Byte) (h : b.isDigit = true) :
    stepNumber .whole b = some (.number .whole) := if_pos h

def partBehind : Option Digits → NumberPart
  | none => .whole
  | some _ => .fraction

theorem reads_fraction (fraction : Option Digits) :
    (Follower.mk stack (.number .whole)).reads (Decimal.fractionText fraction ++ rest) =
      (Follower.mk stack (.number (partBehind fraction))).reads rest := by
  cases fraction with
  | none => rfl
  | some d =>
    have hstep : (Follower.mk stack (.number .whole)).step Byte.dot =
        some ⟨stack, .number .fraction⟩ := rfl
    rw [Decimal.fractionText, List.cons_append, reads_step hstep]
    exact reads_digits stack rest (fun b hb => if_pos hb) d.digit

theorem reads_whole {r : Follower}
    (hdigit : ∀ b : Byte, b.isDigit = true → r.step b = some ⟨stack, .number .whole⟩)
    (hdot : r.step Byte.dot = some ⟨stack, .number .fraction⟩) {whole : Whole}
    {fraction : Option Digits} (h : whole = .absent → fraction ≠ none) :
    r.reads (whole.text ++ (Decimal.fractionText fraction ++ rest)) =
      (Follower.mk stack (.number (partBehind fraction))).reads rest := by
  cases whole with
  | absent =>
    obtain ⟨d, rfl⟩ := Option.ne_none_iff_exists'.1 (h rfl)
    rw [Whole.text, List.nil_append, Decimal.fractionText, List.cons_append, reads_step hdot]
    exact reads_digits stack rest (fun b hb => if_pos hb) d.digit
  | zero =>
    rw [Whole.text, List.singleton_append, reads_step (hdigit Byte.zero (by decide))]
    exact reads_fraction stack rest fraction
  | positive d leading =>
    obtain ⟨b, tail, hd⟩ := List.exists_cons_of_ne_nil d.ne_nil
    have hdigits := d.digit
    rw [hd] at hdigits
    rw [Whole.text, hd, List.cons_append, reads_step (hdigit b (hdigits b List.mem_cons_self)),
      reads_digits stack _ stepNumber_whole fun b hb => hdigits b (List.mem_cons_of_mem _ hb)]
    exact reads_fraction stack rest fraction

theorem reads_exponentDigits (d : Digits) (sign : Sign) :
    (Follower.mk stack (.number .mark)).reads (sign.text ++ (d.bytes ++ rest)) =
      (Follower.mk stack (.number .exponent)).reads rest := by
  have hdigits (bytes : List Byte) (h : ∀ b ∈ bytes, b.isDigit = true) :
      (Follower.mk stack (.number .exponent)).reads (bytes ++ rest) =
        (Follower.mk stack (.number .exponent)).reads rest :=
    reads_digits stack rest (fun b hb => if_pos hb) h
  cases sign with
  | absent =>
    obtain ⟨b, tail, hd⟩ := List.exists_cons_of_ne_nil d.ne_nil
    have hall := d.digit
    rw [hd] at hall
    have hstep : (Follower.mk stack (.number .mark)).step b = some ⟨stack, .number .exponent⟩ := by
      simp [step, stepNumber, hall b List.mem_cons_self]
    rw [Sign.text, List.nil_append, hd, List.cons_append, reads_step hstep]
    exact hdigits tail fun b hb => hall b (List.mem_cons_of_mem _ hb)
  | minus => exact (reads_step rfl _).trans (hdigits d.bytes d.digit)
  | plus => exact (reads_step rfl _).trans (hdigits d.bytes d.digit)

theorem reads_numberEnd {part : NumberPart} (h : ∀ b ∈ rest.head?, stepNumber part b = none) :
    (Follower.mk stack (.number part)).reads rest =
      (Follower.mk stack (.between .separator)).reads rest := by
  refine reads_congr fun b hb => ?_
  simp only [step, h b hb]

theorem stepNumber_partBehind {n : Decimal} {b : Byte} (hn : n.exponent = none)
    (h : n.continuedBy b = false) : stepNumber (partBehind n.fraction) b = none := by
  obtain ⟨hdigit, hdot, hmark⟩ := Decimal.continuedBy_eq_false.1 h
  cases hfraction : n.fraction with
  | none => simp [partBehind, stepNumber, hdigit, hdot hfraction hn, hmark hn]
  | some d => simp [partBehind, stepNumber, hdigit, hmark hn]

theorem reads_exponent {n : Decimal} (h : ∀ b ∈ rest.head?, n.continuedBy b = false) :
    (Follower.mk stack (.number (partBehind n.fraction))).reads
        (Decimal.exponentText n.exponent ++ rest) =
      (Follower.mk stack (.between .separator)).reads rest := by
  cases hexponent : n.exponent with
  | none => exact reads_numberEnd stack rest fun b hb => stepNumber_partBehind hexponent (h b hb)
  | some e =>
    have hstep : (Follower.mk stack (.number (partBehind n.fraction))).step e.mark =
        some ⟨stack, .number .mark⟩ := by
      have hdigit := isDigit_of_isExponentMark e.isMark
      have hdot : e.mark ≠ Byte.dot := by
        intro hdot
        have hmark := e.isMark
        rw [hdot] at hmark
        exact absurd hmark (by decide)
      cases n.fraction <;> simp [partBehind, step, stepNumber, hdigit, hdot, e.isMark]
    rw [Decimal.exponentText, Exponent.text, List.cons_append, reads_step hstep,
      List.append_assoc, reads_exponentDigits]
    refine reads_numberEnd stack rest fun b hb => ?_
    rw [stepNumber, (Decimal.continuedBy_eq_false.1 (h b hb)).1]
    rfl

end Numbers

theorem stepBetween_of_not_blank {stack : List Structure} {due : Due} {b : Byte}
    (h : b.isBlank = false) : stepBetween stack due b = beginToken due stack b :=
  if_neg (by simp [h])

theorem isBlank_of_leads {b : Byte} {x : Scalar} (h : Token.Kind.leads b x = true) :
    b.isBlank = false := by
  refine eq_false_of_ne_true fun hblank => ?_
  rw [Token.Kind.leads_eq_false (Token.Kind.mem_separators_of_isBlank hblank)] at h
  cases h

theorem ne_mark_of_leads {b : Byte} {x : Scalar} (h : Token.Kind.leads b x = true) (m : Mark) :
    b ≠ m.byte := by
  rintro rfl
  rw [Token.Kind.leads_eq_false (Token.Kind.byte_mem_separators m)] at h
  cases h

theorem beginValue_leads {b : Byte} {x : Scalar} (h : Token.Kind.leads b x = true) :
    beginValue stack b = (beginString stack .separator b).or (beginLiteral stack b) := by
  have hmark : Mark.ofByte? b = none := by
    cases hm : Mark.ofByte? b with
    | none => rfl
    | some m => exact absurd (Mark.ofByte?_eq_some hm) (ne_mark_of_leads h m)
  rw [beginValue, hmark]

theorem step_digit {b : Byte} (h : b.isDigit = true) :
    (Follower.mk stack (.between .value)).step b = some ⟨stack, .number .whole⟩ := by
  have hleads : Token.Kind.leads b (.special .nan) = true := by
    simp [Token.Kind.leads, Token.Kind.leadsNumber, h]
  have hstring : beginString stack .separator b = none := by
    rw [beginString, if_neg, if_neg]
    · rintro rfl
      exact absurd h (by decide)
    · rintro rfl
      exact absurd h (by decide)
  rw [step, stepBetween_of_not_blank (isBlank_of_leads hleads), beginToken,
    beginValue_leads stack hleads, hstring, Option.none_or, beginLiteral, if_pos h]

theorem reads_letters (letters : List Byte) :
    (Follower.mk stack (.letters letters)).reads (letters ++ rest) =
      (Follower.mk stack (.between .separator)).reads rest := by
  induction letters with
  | nil => exact reads_congr fun b _ => rfl
  | cons c letters ih =>
    have hstep : (Follower.mk stack (.letters (c :: letters))).step c =
        some ⟨stack, .letters letters⟩ := if_pos rfl
    rw [List.cons_append, reads_step hstep, ih]

theorem reads_word (w : Word) :
    (Follower.mk stack (.between .value)).reads (w.text ++ rest) =
      (Follower.mk stack (.between .separator)).reads rest := by
  match w with
  | .bool true => exact (reads_step rfl _).trans (reads_letters stack rest _)
  | .bool false => exact (reads_step rfl _).trans (reads_letters stack rest _)
  | .null => exact (reads_step rfl _).trans (reads_letters stack rest _)

theorem reads_special (s : SpecialNumber) :
    (Follower.mk stack (.between .value)).reads (s.spelling ++ rest) =
      (Follower.mk stack (.between .separator)).reads rest := by
  match s with
  | .infinity => exact (reads_step rfl _).trans (reads_letters stack rest _)
  | .nan => exact (reads_step rfl _).trans (reads_letters stack rest _)
  | .negativeInfinity =>
    exact (reads_step rfl _).trans ((reads_step rfl _).trans (reads_letters stack rest _))

theorem reads_decimal {n : Decimal} (h : ∀ b ∈ rest.head?, n.continuedBy b = false) :
    (Follower.mk stack (.between .value)).reads (n.text ++ rest) =
      (Follower.mk stack (.between .separator)).reads rest := by
  have htext : n.text ++ rest = n.sign.text ++ (n.whole.text ++
      (Decimal.fractionText n.fraction ++ (Decimal.exponentText n.exponent ++ rest))) := by
    simp [Decimal.text]
  have hsigned : (Follower.mk stack (.number .sign)).reads (n.whole.text ++
      (Decimal.fractionText n.fraction ++ (Decimal.exponentText n.exponent ++ rest))) =
      (Follower.mk stack (.between .separator)).reads rest := by
    rw [reads_whole stack _ (fun b hb => by simp [step, stepNumber, hb]) rfl n.mantissa]
    exact reads_exponent stack rest h
  rw [htext]
  cases n.sign with
  | minus => exact (reads_step rfl _).trans hsigned
  | plus => exact (reads_step rfl _).trans hsigned
  | absent =>
    rw [Sign.text, List.nil_append,
      reads_whole stack _ (fun b hb => step_digit stack hb) rfl n.mantissa]
    exact reads_exponent stack rest h

theorem reads_scalar {o : Options} {x : Scalar} (hx : x.Admitted o .free)
    (hrest : x.EndsBefore rest) :
    (Follower.mk stack (.between .value)).reads (x.text ++ rest) =
      (Follower.mk stack (.between .separator)).reads rest := by
  cases x with
  | word w => exact reads_word stack rest w
  | special s => exact reads_special stack rest s
  | decimal n => exact reads_decimal stack rest hrest
  | string q =>
    have hstep : (Follower.mk stack (.between .value)).step q.quote.byte =
        some ⟨stack, .string q.quote .separator⟩ := by cases q.quote <;> rfl
    exact (reads_step hstep _).trans (reads_body stack rest hx.2)

def ValueDue (stack : List Structure) (due : Due) : Prop :=
  due = .value ∨ due = .first ∧ stack.head? = some .array

def ItemsDue (s : Structure) (due : Due) : Prop := due = .first ∨ due = dueBehindComma s

/-- What is due before the value of an item. -/
def dueBehindLead {s : Structure} (due : Due) : Lead s → Due
  | .element => due
  | .member .. => .value

theorem valueDue_behindLead {s : Structure} {due : Due} (h : ItemsDue s due) (lead : Lead s)
    (outer : List Structure) : ValueDue (s :: outer) (dueBehindLead due lead) := by
  cases lead with
  | member front key back => exact .inl rfl
  | element =>
    rcases h with rfl | rfl
    · exact .inr ⟨rfl, rfl⟩
    · exact .inl rfl

theorem isBlank_mark (m : Mark) : m.byte.isBlank = false := by
  cases m <;> decide

theorem exists_front (p : Phrase .value) :
    ∃ b tail, p.text = b :: tail ∧ b.isBlank = false ∧ ∀ s : Structure, b ≠ s.closing.byte := by
  have hopening (s s' : Structure) : s.opening.byte ≠ s'.closing.byte := by
    cases s <;> cases s' <;> decide
  cases p with
  | scalar x =>
    obtain ⟨b, tail, htext, hleads⟩ := Token.Kind.exists_leads x
    exact ⟨b, tail, htext, isBlank_of_leads hleads, fun s => ne_mark_of_leads hleads s.closing⟩
  | hollow s gap => exact ⟨_, _, rfl, isBlank_mark s.opening, hopening s⟩
  | filled s items => exact ⟨_, _, rfl, isBlank_mark s.opening, hopening s⟩

theorem reads_of_valueDue {due : Due} (h : ValueDue stack due) (p : Phrase .value) :
    (Follower.mk stack (.between due)).reads (p.text ++ rest) =
      (Follower.mk stack (.between .value)).reads (p.text ++ rest) := by
  rcases h with rfl | ⟨rfl, htop⟩
  · rfl
  · obtain ⟨outer, rfl⟩ := List.head?_eq_some_iff.1 htop
    obtain ⟨b, tail, htext, hblank, hclosing⟩ := exists_front p
    rw [htext]
    refine reads_congr ?_
    rintro _ ⟨⟩
    show stepBetween _ _ b = stepBetween _ _ b
    rw [stepBetween_of_not_blank hblank, stepBetween_of_not_blank hblank]
    exact if_neg (hclosing .array)

theorem step_mark (due : Due) (m : Mark) :
    (Follower.mk stack (.between due)).step m.byte = beginToken due stack m.byte :=
  stepBetween_of_not_blank (isBlank_mark m)

theorem step_opening {due : Due} (h : ValueDue stack due) (s : Structure) :
    (Follower.mk stack (.between due)).step s.opening.byte =
      some ⟨s :: stack, .between .first⟩ := by
  rcases h with rfl | ⟨rfl, htop⟩
  · cases s <;> rfl
  · obtain ⟨outer, rfl⟩ := List.head?_eq_some_iff.1 htop
    cases s <;> rfl

theorem step_hollow (s : Structure) (outer : List Structure) :
    (Follower.mk (s :: outer) (.between .first)).step s.closing.byte =
      some ⟨outer, .between .separator⟩ := by
  rw [step_mark]
  exact if_pos rfl

theorem step_closing (s : Structure) (outer : List Structure) :
    (Follower.mk (s :: outer) (.between .separator)).step s.closing.byte =
      some ⟨outer, .between .separator⟩ := by
  cases s <;> rfl

theorem step_comma (s : Structure) (outer : List Structure) :
    (Follower.mk (s :: outer) (.between .separator)).step Mark.comma.byte =
      some ⟨s :: outer, .between (dueBehindComma s)⟩ := rfl

theorem reads_lead {o : Options} {s : Structure} {due : Due} (h : ItemsDue s due) {lead : Lead s}
    (hlead : ∀ x ∈ lead.scalars, x.Admitted o .free) (outer : List Structure) :
    (Follower.mk (s :: outer) (.between due)).reads (lead.text ++ rest) =
      (Follower.mk (s :: outer) (.between (dueBehindLead due lead))).reads rest := by
  cases lead with
  | element => rfl
  | member front key back =>
    have hkey : (Scalar.string key).Admitted o .free := hlead _ (List.mem_singleton.2 rfl)
    have hstep : (Follower.mk (.object :: outer) (.between due)).step key.quote.byte =
        some ⟨.object :: outer, .string key.quote .colon⟩ := by
      rcases h with rfl | rfl <;> cases key.quote <;> rfl
    have hcolon : (Follower.mk (.object :: outer) (.between .colon)).step Mark.colon.byte =
        some ⟨.object :: outer, .between .value⟩ := rfl
    rw [Lead.text, List.append_assoc, List.append_assoc, List.append_assoc, reads_gap,
      Quoted.text, List.cons_append, reads_step hstep, reads_body _ _ hkey.2, reads_gap,
      List.singleton_append, reads_step hcolon]
    rfl

/-- The follower goes through a phrase, items up to their closing bracket. -/
def Follows : {c : Category} → Phrase c → Prop
  | .value, p => ∀ (stack : List Structure) (due : Due) (rest : List Byte), ValueDue stack due →
      p.EndsBefore rest →
      (Follower.mk stack (.between due)).reads (p.text ++ rest) =
        (Follower.mk stack (.between .separator)).reads rest
  | .items s, q => ∀ (outer : List Structure) (due : Due) (rest : List Byte), ItemsDue s due →
      (Follower.mk (s :: outer) (.between due)).reads (q.text ++ s.closing.byte :: rest) =
        (Follower.mk outer (.between .separator)).reads rest

theorem reads_item {o : Options} {s : Structure} {lead : Lead s} {p : Phrase .value}
    (hp : Follows p) (hlead : ∀ x ∈ lead.scalars, x.Admitted o .free) {due : Due}
    (hdue : ItemsDue s due) (front back : Gap) (m : Mark) (outer : List Structure) :
    (Follower.mk (s :: outer) (.between due)).reads
        (lead.text ++ (front.bytes ++ (p.text ++ (back.bytes ++ m.byte :: rest)))) =
      (Follower.mk (s :: outer) (.between .separator)).reads (m.byte :: rest) := by
  rw [reads_lead _ hdue hlead, reads_gap,
    hp _ _ _ (valueDue_behindLead hdue lead outer) (p.endsBefore_mark back m rest), reads_gap]

theorem follows {o : Options} {c : Category} {p : Phrase c} (h : p.Admitted o .free) :
    Follows p := by
  induction p with
  | scalar x =>
    intro stack due rest hdue hrest
    rw [reads_of_valueDue stack rest hdue]
    exact reads_scalar stack rest (h x List.mem_cons_self) hrest
  | hollow s gap =>
    intro stack due rest hdue _
    rw [Phrase.text, List.cons_append, reads_step (step_opening stack hdue s), List.append_assoc,
      reads_gap, List.singleton_append, reads_step (step_hollow s stack)]
  | filled s items ih =>
    intro stack due rest hdue _
    rw [Phrase.text, List.cons_append, reads_step (step_opening stack hdue s), List.append_assoc,
      List.singleton_append]
    exact ih h stack .first rest (.inl rfl)
  | @last s lead front p back ih =>
    intro outer due rest hdue
    obtain ⟨hlead, hp⟩ := List.forall_mem_append.1 h
    have hitem := reads_item rest (ih hp) hlead hdue front back s.closing outer
    rw [reads_step (step_closing s outer)] at hitem
    simpa [Phrase.text] using hitem
  | @more s lead front p back items ih ihitems =>
    intro outer due rest hdue
    obtain ⟨hlead, hmore⟩ := List.forall_mem_append.1 h
    obtain ⟨hp, hitems⟩ := List.forall_mem_append.1 hmore
    have hitem := reads_item (items.text ++ s.closing.byte :: rest) (ih hp) hlead hdue front back
      .comma outer
    rw [reads_step (step_comma s outer), ihitems hitems outer _ rest (.inr rfl)] at hitem
    simpa [Phrase.text] using hitem

theorem reads_document {o : Options} {d : Document} (h : d.Admitted o .free) :
    (Follower.mk [] (.between .value)).reads d.text = true := by
  have hends : d.phrase.EndsBefore (d.back.bytes ++ []) := d.phrase.endsBefore_gap d.back nofun
  have hback := reads_gap [] [] .separator d.back
  have hphrase := follows h [] .value (d.back.bytes ++ []) (.inl rfl) hends
  rw [List.append_nil] at hphrase hback
  rw [Document.text, reads_gap, hphrase, hback]
  rfl

theorem not_opens_of_reads {o : Options} {text : List Byte}
    (h : (Follower.mk [] (.between .value)).reads text = false) : ¬ Opens o .free text := by
  rintro ⟨d, hd, more, hmore⟩
  have hall := reads_document hd
  rw [← hmore] at hall
  rw [reads_front hall] at h
  cases h

end Follower

open Follower (ValueDue ItemsDue dueBehindLead dueBehindComma)

namespace Context

def stack {c : Category} : Context c → List Structure
  | root => []
  | entry k _ => k.stack
  | inside k _ s => s :: k.stack
  | next k _ _ _ _ => k.stack

def due {c : Category} : Context c → Due
  | root => .value
  | entry k lead => dueBehindLead k.due lead
  | inside _ _ _ => .first
  | @next s _ _ _ _ _ => dueBehindComma s

theorem itemsDue {s : Structure} (k : Context (.items s)) : ItemsDue s k.due := by
  match k with
  | inside _ _ _ => exact .inl rfl
  | next _ _ _ _ _ => exact .inr rfl

theorem exists_outer {s : Structure} (k : Context (.items s)) : ∃ outer, k.stack = s :: outer := by
  match k with
  | inside k _ _ => exact ⟨k.stack, rfl⟩
  | next k _ _ _ _ => exact k.exists_outer

theorem valueDue (k : Context .value) : ValueDue k.stack k.due := by
  match k with
  | root => exact .inl rfl
  | entry k lead =>
    obtain ⟨outer, houter⟩ := k.exists_outer
    rw [stack, houter]
    exact Follower.valueDue_behindLead k.itemsDue lead outer

theorem reads_text {o : Options} {c : Category} {k : Context c} (hk : k.Admitted o .free)
    (rest : List Byte) :
    (Follower.mk [] (.between .value)).reads (k.text ++ rest) =
      (Follower.mk k.stack (.between k.due)).reads rest := by
  induction k generalizing rest with
  | root => rfl
  | entry k lead ih =>
    obtain ⟨hk, hlead⟩ := List.forall_mem_append.1 hk
    obtain ⟨outer, houter⟩ := k.exists_outer
    rw [text, List.append_assoc, ih hk, houter, Follower.reads_lead rest k.itemsDue hlead, stack,
      houter]
    rfl
  | inside k gap s ih =>
    rw [text, List.append_assoc, ih hk, List.append_assoc, Follower.reads_gap,
      List.singleton_append, Follower.reads_step (Follower.step_opening k.stack k.valueDue s)]
    rfl
  | @next s k lead front p back ih =>
    obtain ⟨hk, hitem⟩ := List.forall_mem_append.1 hk
    obtain ⟨hlead, hp⟩ := List.forall_mem_append.1 hitem
    obtain ⟨outer, houter⟩ := k.exists_outer
    have hread :=
      Follower.reads_item rest (Follower.follows hp) hlead k.itemsDue front back .comma outer
    rw [Follower.reads_step (Follower.step_comma s outer), ← houter, ← ih hk] at hread
    simpa [text, stack, due] using hread

end Context

namespace Place

def stack : Place → List Structure
  | value k _ => k.stack
  | key k _ => k.stack
  | colon k _ _ _ => k.stack
  | after k _ _ _ => k.stack

def due : Place → Due
  | value k _ => k.due
  | key k _ => k.due
  | colon .. => .colon
  | after .. => .separator

theorem reads_text {o : Options} {place : Place} (hp : place.Admitted o .free) {rest : List Byte}
    (hrest : place.EndsBefore rest) :
    (Follower.mk [] (.between .value)).reads (place.text ++ rest) =
      (Follower.mk place.stack (.between place.due)).reads rest := by
  cases place with
  | value k gap =>
    rw [text, List.append_assoc, Context.reads_text hp, Follower.reads_gap]
    rfl
  | key k gap =>
    rw [text, List.append_assoc, Context.reads_text hp, Follower.reads_gap]
    rfl
  | colon k front q back =>
    obtain ⟨hk, hq⟩ := List.forall_mem_append.1 hp
    obtain ⟨outer, houter⟩ := k.exists_outer
    have hstep : (Follower.mk (.object :: outer) (.between k.due)).step q.quote.byte =
        some ⟨.object :: outer, .string q.quote .colon⟩ := by
      rcases k.itemsDue with hdue | hdue <;> rw [hdue] <;> cases q.quote <;> rfl
    have hunits : ∀ u ∈ q.units, u.Admitted .free q.quote := (hq _ (List.mem_singleton.2 rfl)).2
    rw [text, List.append_assoc, Context.reads_text hk, List.append_assoc, Follower.reads_gap,
      houter, List.append_assoc, Quoted.text, List.cons_append, Follower.reads_step hstep,
      Follower.reads_body _ _ hunits, Follower.reads_gap, stack, houter]
    rfl
  | after k front p back =>
    obtain ⟨hk, hp⟩ := List.forall_mem_append.1 hp
    rw [text, List.append_assoc, Context.reads_text hk, List.append_assoc, Follower.reads_gap,
      List.append_assoc, Follower.follows hp _ _ _ k.valueDue hrest, Follower.reads_gap]
    rfl

/-- The first byte of a lexeme tells which lexeme it may be. -/
theorem ne_mark_of_front {x : Lexeme} {b : Byte} {tail : List Byte} (hx : x.text = b :: tail)
    {m : Mark} (h : x ≠ .mark m) : b ≠ m.byte := by
  cases x with
  | mark m' =>
    cases hx
    intro hbyte
    have hmark := congrArg Mark.ofByte? hbyte
    rw [Mark.ofByte?_byte, Mark.ofByte?_byte] at hmark
    exact h (congrArg Lexeme.mark (Option.some.inj hmark))
  | scalar x =>
    obtain ⟨b', tail', htext, hleads⟩ := Token.Kind.exists_leads x
    rw [Lexeme.text, htext] at hx
    cases hx
    exact Follower.ne_mark_of_leads hleads m

theorem beginString_eq_none {x : Lexeme} {b : Byte} {tail : List Byte} (hx : x.text = b :: tail)
    (h : ¬ ∃ q, x = .scalar (.string q)) (stack : List Structure) (due : Due) :
    Follower.beginString stack due b = none := by
  have hquote : b ≠ Byte.quote ∧ b ≠ Byte.apostrophe := by
    cases x with
    | mark m =>
      cases hx
      cases m <;> decide
    | scalar x =>
      obtain ⟨b', tail', htext, hleads⟩ := Token.Kind.exists_leads x
      rw [Lexeme.text, htext] at hx
      cases hx
      cases x with
      | word w => refine ⟨?_, ?_⟩ <;> (rintro rfl; cases hleads)
      | special s => refine ⟨?_, ?_⟩ <;> (rintro rfl; cases hleads)
      | decimal n => refine ⟨?_, ?_⟩ <;> (rintro rfl; cases hleads)
      | string q => exact absurd ⟨q, rfl⟩ h
  rw [Follower.beginString, if_neg hquote.1, if_neg hquote.2]

theorem beginValue_eq_none {m : Mark} (h : ¬ ∃ s : Structure, m = s.opening)
    (stack : List Structure) : Follower.beginValue stack m.byte = none := by
  cases m with
  | openBrace => exact absurd ⟨.object, rfl⟩ h
  | openBracket => exact absurd ⟨.array, rfl⟩ h
  | closeBrace => rfl
  | closeBracket => rfl
  | colon => rfl
  | comma => rfl

theorem closes_of_due {c : Category} (k : Context c) (h : k.due = .first) :
    ∃ s, k.stack.head? = some s ∧ k.closes = some s := by
  match k with
  | .root => cases h
  | .entry k .element => exact closes_of_due k h
  | .entry k (.member ..) => cases h
  | .inside k gap s => exact ⟨s, rfl, rfl⟩
  | @Context.next s k lead front p back => cases s <;> cases h

theorem ne_closing_of_due {c : Category} {k : Context c} {x : Lexeme} {b : Byte} {tail : List Byte}
    (hx : x.text = b :: tail) (hdue : k.due = .first) {s : Structure} {outer : List Structure}
    (hstack : k.stack = s :: outer)
    (h : ¬ ∃ s, k.closes = some s ∧ x = .mark s.closing) : b ≠ s.closing.byte := by
  obtain ⟨s', htop, hcloses⟩ := closes_of_due k hdue
  rw [hstack] at htop
  cases htop
  exact ne_mark_of_front hx fun hmark => h ⟨s, hcloses, hmark⟩

theorem parent_of_stack {k : Context .value} {s : Structure} {outer : List Structure}
    (h : k.stack = s :: outer) : k.parent = some s := by
  match k with
  | .root => cases h
  | .entry k lead =>
    obtain ⟨outer', houter⟩ := k.exists_outer
    rw [Context.stack, houter] at h
    cases h
    rfl

/-- A lexeme that is not due is refused at its first byte. -/
theorem beginToken_eq_none {place : Place} {x : Lexeme} (h : ¬ place.Expects x) {b : Byte}
    {tail : List Byte} (hx : x.text = b :: tail) :
    Follower.beginToken place.due place.stack b = none := by
  cases place with
  | value k gap =>
    obtain ⟨hscalar, hrest⟩ := not_or.1 h
    obtain ⟨hopening, hclosing⟩ := not_or.1 hrest
    obtain ⟨m, rfl⟩ : ∃ m, x = .mark m := by
      cases x with
      | mark m => exact ⟨m, rfl⟩
      | scalar x => exact absurd ⟨x, rfl⟩ hscalar
    have hnone := beginValue_eq_none fun ⟨s, hs⟩ => hopening ⟨s, congrArg Lexeme.mark hs⟩
    have hb : m.byte = b := (List.cons.inj hx).1
    rw [hb] at hnone
    show Follower.beginToken k.due k.stack b = none
    rcases k.valueDue with hdue | ⟨hdue, htop⟩
    · rw [hdue]
      exact hnone k.stack
    · obtain ⟨outer, houter⟩ := List.head?_eq_some_iff.1 htop
      rw [hdue, houter, Follower.beginToken, if_neg (ne_closing_of_due hx hdue houter hclosing)]
      exact hnone _
  | key k gap =>
    obtain ⟨hstring, hclosing⟩ := not_or.1 h
    have hnone := beginString_eq_none hx hstring
    show Follower.beginToken k.due k.stack b = none
    rcases k.itemsDue with hdue | hdue
    · obtain ⟨outer, houter⟩ := k.exists_outer
      rw [hdue, houter, Follower.beginToken, if_neg (ne_closing_of_due hx hdue houter hclosing)]
      exact hnone _ .colon
    · rw [hdue]
      exact hnone k.stack .colon
  | colon k front q back =>
    exact if_neg (ne_mark_of_front hx h)
  | after k front p back =>
    show Follower.beginToken .separator k.stack b = none
    cases hstack : k.stack with
    | nil => rfl
    | cons s outer =>
      have hparent := parent_of_stack hstack
      have hcomma : x ≠ .mark .comma := fun hx => h ⟨s, hparent, .inl hx⟩
      have hclosing : x ≠ .mark s.closing := fun hx => h ⟨s, hparent, .inr hx⟩
      rw [Follower.beginToken, if_neg (ne_mark_of_front hx hcomma),
        if_neg (ne_mark_of_front hx hclosing)]

theorem not_opens_of_refused {o : Options} {place : Place} (hp : place.Admitted o .free) {b : Byte}
    (hblank : b.isBlank = false) (h : Follower.beginToken place.due place.stack b = none)
    (hends : place.EndsBefore [b]) : ¬ Opens o .free (place.text ++ [b]) := by
  have hstep : (Follower.mk place.stack (.between place.due)).step b = none :=
    (Follower.stepBetween_of_not_blank hblank).trans h
  apply Follower.not_opens_of_reads
  rw [reads_text hp hends, Follower.reads_cons, hstep]
  rfl

/-- No document goes on with the first byte of a lexeme that is not due. -/
theorem not_opens {o : Options} {place : Place} (hp : place.Admitted o .free) {x : Lexeme}
    (h : ¬ place.Expects x) {b : Byte} {tail : List Byte} (hx : x.text = b :: tail)
    (hends : place.EndsBefore [b]) : ¬ Opens o .free (place.text ++ [b]) := by
  have hblank : b.isBlank = false := by
    have hstop := Token.Kind.stops_isBlank_lexeme x []
    rw [List.append_nil, hx] at hstop
    exact (stops_cons _ _ _).1 hstop
  exact not_opens_of_refused hp hblank (beginToken_eq_none h hx) hends

end Place

theorem Opens.free {o : Options} {text : List Byte} (h : Opens o .paired text) :
    Opens o .free text := by
  obtain ⟨d, hd, htext⟩ := h
  exact ⟨d, fun x hx => (hd x hx).free, htext⟩

end LocatedJson.Grammar
