import LocatedJson.Proofs.Parsing.Whole
import LocatedJson.Proofs.Reports

/-! Relaxations only open gates. Two parses of one source, the second with more relaxations than
the first and with no less room on its stack, run in step until the first meets a gate that only the
second has open, where it stops and names the relaxation, or runs out of room. -/
namespace LocatedJson

variable {o o' : Options}

def Options.Withholds (o o' : Options) (x : Relaxation) : Prop :=
  o'.allows x = true ∧ o.allows x = false

/-- Two scans: the same result, or a gate closed for the first. -/
def Scanned.Gated {α : Type} (o o' : Options) (r r' : Scanned α) : Prop :=
  r = r' ∨ ∃ x f, o.Withholds o' x ∧ r = .error f ∧ f.cause = .notEnabled x

namespace Scanned.Gated

variable {α β : Type}

theorem refl (r : Scanned α) : Gated o o' r r := .inl rfl

theorem extend {r r' : Scanned α} {g : Scanned α → Scanned β} (h : Gated o o' r r')
    (hg : ∀ f, ∃ f', g (.error f) = .error f' ∧ f'.cause = f.cause) :
    Gated o o' (g r) (g r') := by
  rcases h with rfl | ⟨x, f, hx, rfl, hf⟩
  · exact .refl _
  · obtain ⟨f', hf', hcause⟩ := hg f
    exact .inr ⟨x, f', hx, hf', hcause.trans hf⟩

theorem bind {first first' : Scan α} {next next' : α → Scan β}
    (h : ∀ bytes, Gated o o' (first bytes) (first' bytes))
    (hnext : ∀ a bytes, Gated o o' (next a bytes) (next' a bytes)) (bytes : List Byte) :
    Gated o o' ((first >>= next) bytes) ((first' >>= next') bytes) := by
  show Gated o o' (Scan.bind first next bytes) (Scan.bind first' next' bytes)
  unfold Scan.bind
  rcases h bytes with heq | ⟨x, f, hx, herror, hf⟩
  · rw [heq]
    cases first' bytes with
    | error f => exact .refl _
    | ok r =>
      obtain ⟨a, n⟩ := r
      dsimp only
      rcases hnext a (bytes.drop n) with hsame | ⟨x, f, hx, herror, hf⟩
      · rw [hsame]
        exact .refl _
      · rw [herror]
        exact .inr ⟨x, f.shift n, hx, rfl, hf⟩
  · rw [herror]
    exact .inr ⟨x, f, hx, rfl, hf⟩

theorem gate {x : Relaxation} (h : o.allows x = true → o'.allows x = true) {a : Scanned α}
    {f : Fault} (hf : f.cause = .notEnabled x) :
    Gated o o' (if o.allows x then a else .error f) (if o'.allows x then a else .error f) := by
  by_cases hoff : o.allows x = true
  · rw [if_pos hoff, if_pos (h hoff)]
    exact .refl a
  · by_cases hon : o'.allows x = true
    · rw [if_neg hoff]
      exact .inr ⟨x, f, ⟨hon, eq_false_of_ne_true hoff⟩, rfl, hf⟩
    · rw [if_neg hoff, if_neg hon]
      exact .refl _

end Scanned.Gated

open Scanned (Gated)

section Lexer

variable (h : ∀ x, o.allows x = true → o'.allows x = true)

include h

theorem Numeral.gated_scanSign (bytes : List Byte) :
    Gated o o' (scanSign o bytes) (scanSign o' bytes) := by
  obtain ⟨sign, rest, rfl, hrest⟩ := exists_sign bytes
  cases sign with
  | absent =>
    rw [Grammar.Sign.text, List.nil_append, scanSign_absent o (hrest rfl),
      scanSign_absent o' (hrest rfl)]
    exact .refl _
  | minus => exact .refl _
  | plus =>
    show Gated o o' (scanSign o (Byte.plus :: rest)) (scanSign o' (Byte.plus :: rest))
    rw [scanSign_plus, scanSign_plus]
    exact .gate (h .explicitPlus) rfl

theorem Numeral.gated_scanWhole (bytes : List Byte) :
    Gated o o' (scanWhole o bytes) (scanWhole o' bytes) := by
  by_cases hzero : bytes.head? = some Byte.zero
  · obtain ⟨rest, rfl⟩ := List.head?_eq_some_iff.1 hzero
    rw [scanWhole_zero, scanWhole_zero]
    exact .refl _
  · by_cases hdot : bytes.head? = some Byte.dot
    · obtain ⟨rest, rfl⟩ := List.head?_eq_some_iff.1 hdot
      rw [scanWhole_dot, scanWhole_dot]
      exact .gate (h .leadingDot) rfl
    · rw [scanWhole_of_ne o hzero hdot, scanWhole_of_ne o' hzero hdot]
      exact .refl _

theorem Numeral.gated_scan (bytes : List Byte) :
    Gated o o' (Numeral.scan o bytes) (Numeral.scan o' bytes) :=
  .bind (gated_scanSign h) (fun _ => .bind (gated_scanWhole h) fun _ _ => .refl _) bytes

theorem Number.gated_scan (l : Limits) (bytes : List Byte) :
    Gated o o' (Number.scan o l bytes) (Number.scan o' l bytes) := by
  cases hspecial : SpecialNumber.ofFront? bytes with
  | some s =>
    obtain ⟨rest, rfl⟩ := SpecialNumber.exists_of_ofFront? hspecial
    rw [Number.scan_special, Number.scan_special]
    exact .gate (h .infinityAndNan) rfl
  | none =>
    rw [Number.scan_of_no_special hspecial, Number.scan_of_no_special hspecial]
    rcases Numeral.gated_scan h bytes with hsame | ⟨x, f, hx, herror, hf⟩
    · rw [hsame]
      exact .refl _
    · rw [herror]
      exact .inr ⟨x, f, hx, rfl, hf⟩

theorem StringLiteral.gated_scan (l : Limits) (q : Grammar.Quote) (bytes : List Byte) :
    Gated o o' (StringLiteral.scan o l q.byte bytes) (StringLiteral.scan o' l q.byte bytes) := by
  cases q with
  | double => exact .refl _
  | single =>
    by_cases hoff : Grammar.Quote.single.Admitted o
    · have hon : Grammar.Quote.single.Admitted o' := h .singleQuotes hoff
      rw [scan_on hoff, scan_on hon]
      exact .refl _
    · by_cases hon : Grammar.Quote.single.Admitted o'
      · rw [scan_off hoff]
        exact .inr ⟨.singleQuotes, _, ⟨hon, eq_false_of_ne_true hoff⟩, rfl, rfl⟩
      · rw [scan_off hoff, scan_off hon]
        exact .refl _

theorem Token.Kind.gated_scan (l : Limits) (bytes : List Byte) :
    Gated o o' (scan o l bytes) (scan o' l bytes) := by
  cases bytes with
  | nil => exact .refl _
  | cons b rest =>
    unfold scan
    dsimp only
    cases Mark.ofByte? b with
    | some m => exact .refl _
    | none =>
      dsimp only
      by_cases hquote : (b = Byte.quote || b = Byte.apostrophe) = true
      · obtain ⟨q, rfl⟩ : ∃ q : Grammar.Quote, b = q.byte := by
          simp only [Bool.or_eq_true, decide_eq_true_eq] at hquote
          rcases hquote with rfl | rfl
          · exact ⟨.double, rfl⟩
          · exact ⟨.single, rfl⟩
        rw [if_pos hquote, if_pos hquote]
        exact (StringLiteral.gated_scan h l q rest).extend fun f => ⟨f, rfl, rfl⟩
      · rw [if_neg hquote, if_neg hquote]
        by_cases hnumber : startsNumber b (b :: rest) = true
        · rw [if_pos hnumber, if_pos hnumber]
          exact (Number.gated_scan h l (b :: rest)).extend fun f => ⟨f, rfl, rfl⟩
        · rw [if_neg hnumber, if_neg hnumber]
          exact .refl _

end Lexer

/-- What holds a first run back: a relaxation that only the second options allow, or a stack with
less room than that of the second run. -/
def Failure.Held (o o' : Options) (short : Prop) (failure : Failure) : Prop :=
  (∃ x, o.Withholds o' x ∧ failure.cause = .notEnabled x) ∨
    short ∧ ∃ n, failure.cause = .recursionExhausted n

/-- The same for steps that keep a state. -/
def GatedRun {σ α : Type} (o o' : Options) (short : Prop) (m m' : EStateM Failure σ α) : Prop :=
  ∀ s, m s = m' s ∨ ∃ failure s', failure.Held o o' short ∧ m s = .error failure s'

namespace GatedRun

variable {σ α β : Type} {short : Prop} {m m' : EStateM Failure σ α}

theorem refl (m : EStateM Failure σ α) : GatedRun o o' short m m := fun _ => .inl rfl

theorem bind {f f' : α → EStateM Failure σ β} (h : GatedRun o o' short m m')
    (hf : ∀ a, GatedRun o o' short (f a) (f' a)) : GatedRun o o' short (m >>= f) (m' >>= f') := by
  intro s
  simp only [Bind.bind, EStateM.bind]
  rcases h s with hsame | ⟨failure, s', hheld, herror⟩
  · rw [hsame]
    cases m' s with
    | ok a s' => exact hf a s'
    | error failure s' => exact .inl rfl
  · rw [herror]
    exact .inr ⟨failure, s', hheld, rfl⟩

theorem map {g : α → β} (h : GatedRun o o' short m m') :
    GatedRun o o' short (g <$> m) (g <$> m') := by
  intro s
  simp only [Functor.map, EStateM.map]
  rcases h s with hsame | ⟨failure, s', hheld, herror⟩
  · rw [hsame]
    exact .inl rfl
  · rw [herror]
    exact .inr ⟨failure, s', hheld, rfl⟩

theorem ite {p : Prop} [Decidable p] {m₁ m₂ : EStateM Failure σ α} (h : GatedRun o o' short m m')
    (h' : GatedRun o o' short m₁ m₂) :
    GatedRun o o' short (if p then m else m₁) (if p then m' else m₂) := by
  split
  · exact h
  · exact h'

end GatedRun

theorem Cursor.gated_read {α : Type} {short : Prop} {scan scan' : Scan α}
    (h : ∀ bytes, Gated o o' (scan bytes) (scan' bytes)) :
    GatedRun o o' short (read scan) (read scan') := by
  intro c
  unfold read
  rcases h c.rest with hsame | ⟨x, ⟨cause, offset, stop⟩, hx, herror, rfl⟩
  · rw [hsame]
    exact .inl rfl
  · rw [herror]
    exact .inr ⟨_, _, .inl ⟨x, hx, rfl⟩, rfl⟩

namespace Parser

variable {short : Prop} (h : ∀ x, o.allows x = true → o'.allows x = true) (l : Limits)

theorem gated_atCursor {α : Type} {work work' : CursorM α} (h : GatedRun o o' short work work') :
    GatedRun o o' short (atCursor work) (atCursor work') := by
  intro s
  unfold atCursor
  rcases h s.toCursor with hsame | ⟨failure, c, hheld, herror⟩
  · rw [hsame]
    exact .inl rfl
  · rw [herror]
    exact .inr ⟨failure, _, hheld, rfl⟩

include h

theorem gated_nextToken : GatedRun o o' short (Cursor.nextToken o l) (Cursor.nextToken o' l) :=
  .bind (.refl _) fun _ => .bind (.refl _) fun _ =>
    .bind (Cursor.gated_read (Token.Kind.gated_scan h l)) fun _ => .refl _

theorem gated_current : GatedRun o o' short (current o l) (current o' l) := by
  refine .bind (.refl _) fun s => ?_
  cases s.ahead with
  | some token => exact .refl _
  | none => exact .bind (gated_atCursor (gated_nextToken h l)) fun _ => .refl _

theorem gated_advance : GatedRun o o' short (advance o l) (advance o' l) :=
  .bind (gated_current h l) fun _ => .refl _

theorem gated_leadOf (s : Structure) : GatedRun o o' short (leadOf o l s) (leadOf o' l s) := by
  cases s with
  | array => exact .bind (gated_current h l) fun _ => .refl _
  | object =>
    refine .bind (gated_current h l) fun token => ?_
    cases token.kind with
    | string key =>
      refine .bind (.map (gated_advance h l)) fun _ => .bind (gated_current h l) fun colon => ?_
      exact .ite (.bind (.map (gated_advance h l)) fun _ => .refl _) (.refl _)
    | mark m => exact .refl _
    | number n => exact .refl _
    | bool b => exact .refl _
    | null => exact .refl _
    | eof => exact .refl _

theorem gated_series (s : Structure) {item item' : ParserM Value}
    (hitem : GatedRun o o' short item item') (bound : Nat) :
    GatedRun o o' short (series o l s item bound) (series o' l s item' bound) := by
  induction bound with
  | zero => exact .refl _
  | succ bound ih =>
    refine .bind (gated_leadOf h l s) fun tag => .bind hitem fun value =>
      .bind (gated_advance h l) fun separator => ?_
    exact .ite (.bind ih fun _ => .refl _) (.refl _)

theorem gated_structured (s : Structure) {item item' : ParserM Value}
    (hitem : GatedRun o o' short item item') :
    GatedRun o o' short (structured o l s item) (structured o' l s item') := by
  refine .bind (gated_advance h l) fun opening => .bind (.refl _) fun _ =>
    .bind (gated_current h l) fun first => ?_
  refine .ite (.bind (.map (gated_advance h l)) fun _ => .refl _) ?_
  exact .bind (.refl _) fun room => .bind (.map (gated_series h l s hitem room)) fun _ => .refl _

theorem gated_valueWith {inner inner' : Structure → ParserM Value}
    (hinner : ∀ s, GatedRun o o' short (inner s) (inner' s)) :
    GatedRun o o' short (valueWith o l inner) (valueWith o' l inner') := by
  refine .bind (gated_current h l) fun token => ?_
  cases token.kind with
  | string s => exact .bind (.map (gated_advance h l)) fun _ => .refl _
  | number n => exact .bind (.map (gated_advance h l)) fun _ => .refl _
  | bool b => exact .bind (.map (gated_advance h l)) fun _ => .refl _
  | null => exact .bind (.map (gated_advance h l)) fun _ => .refl _
  | eof => exact .refl _
  | mark m =>
    cases m with
    | openBrace => exact hinner .object
    | openBracket => exact hinner .array
    | closeBrace => exact .refl _
    | closeBracket => exact .refl _
    | colon => exact .refl _
    | comma => exact .refl _

/-- Where the first run has no room left, it ends before the second goes on. -/
theorem gated_exhausted (hshort : short) (s : Structure) (item : ParserM Value) :
    GatedRun o o' short (exhausted o l) (structured o' l s item) :=
  .bind (gated_advance h l) fun _ => .bind (.refl _) fun _ st =>
    .inr ⟨⟨.recursionExhausted st.depth, st.pos⟩, st, .inr ⟨hshort, _, rfl⟩, rfl⟩

theorem gated_value {levels levels' : Nat} (hlevels : levels ≤ levels')
    (hshort : levels < levels' → short) :
    GatedRun o o' short (value o l levels) (value o' l levels') := by
  induction levels generalizing levels' with
  | zero =>
    cases levels' with
    | zero => exact gated_valueWith h l fun _ => .bind (gated_advance h l) fun _ => .refl _
    | succ levels' =>
      rw [value_succ]
      exact gated_valueWith h l fun s => gated_exhausted h l (hshort (Nat.succ_pos _)) s _
  | succ levels ih =>
    obtain ⟨levels', rfl⟩ := Nat.exists_eq_succ_of_ne_zero (by omega : levels' ≠ 0)
    rw [value_succ, value_succ]
    have hinner := ih (Nat.le_of_succ_le_succ hlevels) fun hlt => hshort (Nat.succ_lt_succ hlt)
    exact gated_valueWith h l fun s => gated_structured h l s hinner

theorem gated_document {levels levels' : Nat} (hlevels : levels ≤ levels') (size : Nat) :
    GatedRun o o' (levels < levels') (document o l levels size) (document o' l levels' size) :=
  .bind (.refl _) fun _ => .bind (.refl _) fun _ => .bind (gated_value h l hlevels id) fun _ =>
    .refl _

end Parser

theorem parseText_gated (h : ∀ x, o.allows x = true → o'.allows x = true) (l : Limits)
    {levels levels' : Nat} (hlevels : levels ≤ levels') (text : List Byte) :
    parseText o l levels text = parseText o' l levels' text ∨
      ∃ failure, failure.Held o o' (levels < levels') ∧
        parseText o l levels text = .error failure := by
  unfold parseText
  rcases Parser.gated_document h l hlevels text.length (.start text) with
    hsame | ⟨failure, s, hheld, herror⟩
  · rw [hsame]
    exact .inl rfl
  · rw [herror]
    exact .inr ⟨failure, hheld, rfl⟩

/-- The relaxations, by the names that their options have. -/
def Relaxation.optionNames : List (Relaxation × String) :=
  [(.infinityAndNan, "allow_infinity_and_nan"),
   (.explicitPlus, "allow_explicit_plus_sign_in_mantissa"),
   (.singleQuotes, "allow_single_quote_strings"),
   (.leadingDot, "allow_number_to_start_with_dot")]

theorem Relaxation.mem_optionNames (x : Relaxation) : (x, x.name) ∈ optionNames := by
  cases x <;> decide

theorem Cause.exists_message_notEnabled (x : Relaxation) :
    ∃ before name, (x, name) ∈ Relaxation.optionNames ∧
      (Cause.notEnabled x).message = before ++ "(enable " ++ name ++ ")" := by
  obtain ⟨what, hwhat⟩ : ∃ what, (Cause.notEnabled x).message =
      what ++ " (enable " ++ x.name ++ ")" := ⟨_, rfl⟩
  have henable : " (enable " = " " ++ "(enable " := by decide
  refine ⟨what ++ " ", x.name, x.mem_optionNames, ?_⟩
  rw [hwhat, henable, ← String.append_assoc]

/-- With more relaxations, and with no less room on its stack, a parse ends in the same way, unless
the first refuses a relaxation that only the second has, which its report names, or runs out of
room. -/
theorem Source.parse_gated (s : Source) (config : Config) {levels levels' : Nat}
    (hlevels : levels ≤ levels') (h : ∀ x, o.allows x = true → o'.allows x = true) :
    (s.parse levels (config.withOptions o) = s.parse levels' (config.withOptions o') ∨
      (∃ x name offset before report, (x, name) ∈ Relaxation.optionNames ∧
        o'.allows x = true ∧ o.allows x = false ∧
        s.parse levels (config.withOptions o) =
          .error (.rejected ⟨.notEnabled x, offset⟩ report) ∧
        ∀ made, report = .ok made →
          made.kind = .grammar ∧ made.text = before ++ "(enable " ++ name ++ ")") ∨
      levels < levels' ∧ ∃ n offset report, s.parse levels (config.withOptions o) =
        .error (.rejected ⟨.recursionExhausted n, offset⟩ report)) ∧
    ∀ v, s.parse levels (config.withOptions o) = .ok v →
      s.parse levels' (config.withOptions o') = .ok v := by
  cases hc : s.contents with
  | none =>
    have hparse (levels : Nat) (o : Options) :
        s.parse levels (config.withOptions o) = .error (.noContents s.name) := by
      rw [parse, hc]
    rw [hparse, hparse]
    exact ⟨.inl rfl, nofun⟩
  | some c =>
    have hparse (levels : Nat) (o : Options) : s.parse levels (config.withOptions o) =
        s.outcome config (parseText o config.limits levels c.text) :=
      Source.parse_eq_outcome hc (config.withOptions o)
    rw [hparse, hparse]
    rcases parseText_gated h config.limits hlevels c.text with
      hsame | ⟨⟨cause, offset⟩, ⟨x, ⟨hon, hoff⟩, rfl⟩ | ⟨hlt, n, rfl⟩, herror⟩
    · rw [hsame]
      exact ⟨.inl rfl, fun v hv => hv⟩
    · rw [herror]
      obtain ⟨before, name, hname, hmessage⟩ := Cause.exists_message_notEnabled x
      refine ⟨.inr (.inl ⟨x, name, offset, before, _, hname, hon, hoff, rfl, ?_⟩), nofun⟩
      intro made hmade
      obtain ⟨-, rfl⟩ := Report.ofFailure_eq_ok_iff.1 hmade
      exact ⟨rfl, hmessage⟩
    · rw [herror]
      exact ⟨.inr (.inr ⟨hlt, n, offset, _, rfl⟩), nofun⟩

def plusOne : List Byte := [0x2b, 0x31]

theorem position_plusOne (tabSize : Int) :
    (Source.ofBytes "plus.json" plusOne).position tabSize (0 : Nat) = ⟨0, 0⟩ := by
  cbv

/-- Where plus signs are not admitted it is refused, by the name of the option that admits them. -/
theorem Source.parse_gated_plusOne :
    (Source.ofBytes "plus.json" plusOne).parse 256 (Config.strict.withOptions .relaxed) =
        .ok (.number (.int 1)) ∧
      ∃ (before : String) (made : Report),
        (Source.ofBytes "plus.json" plusOne).parse 256 (Config.strict.withOptions .strict) =
          .error (.rejected ⟨.notEnabled .explicitPlus, 0⟩ (.ok made)) ∧
        made.text = before ++ "(enable allow_explicit_plus_sign_in_mantissa)" := by
  have hrelaxed : (Source.ofBytes "plus.json" plusOne).parse 256
      (Config.strict.withOptions .relaxed) = .ok (.number (.int 1)) :=
    (Source.parse_eq_ok rfl).2 (by cbv)
  have hshows : Reporting.Shows {} (.ofBytes "plus.json" plusOne) (0 : Nat) :=
    Reporting.shows_of_lt (position_plusOne _) (by decide) (by decide) (by decide)
  have hstrict : (Source.ofBytes "plus.json" plusOne).parse 256
      (Config.strict.withOptions .strict) =
        .error (.rejected ⟨.notEnabled .explicitPlus, 0⟩ (.ok _)) :=
    (Source.parse_eq_error rfl).2 ⟨by cbv, (Report.ofFailure_ok hshows).symm⟩
  refine ⟨hrelaxed, ?_⟩
  rcases (Source.parse_gated (.ofBytes "plus.json" plusOne) .strict (Nat.le_refl 256)
    fun x _ => Options.allows_relaxed x).1 with
      hsame | ⟨x, name, offset, before, report, hname, -, -, hrefused, hnamed⟩ | ⟨hlt, -⟩
  · cases (hstrict.symm.trans hsame).trans hrelaxed
  · cases hstrict.symm.trans hrefused
    obtain rfl : name = "allow_explicit_plus_sign_in_mantissa" := by
      simpa [Relaxation.optionNames] using hname
    have hending : "(enable " ++ ("allow_explicit_plus_sign_in_mantissa" ++ ")") =
        "(enable allow_explicit_plus_sign_in_mantissa)" := by decide
    have htext := (hnamed _ rfl).2
    rw [String.append_assoc, String.append_assoc, hending] at htext
    exact ⟨before, _, hstrict, htext⟩
  · exact absurd hlt (Nat.lt_irrefl _)

/-- Where tab stops are too far apart, the refusal is not told. Where the stack has no room for the
array around the number, the refusal is not told either, though more room lets it be read. -/
theorem Source.parse_plusOne_untold :
    (Source.ofBytes "plus.json" plusOne).parse 256 ⟨.strict, {}, .tooWide⟩ =
        .error (.rejected ⟨.notEnabled .explicitPlus, 0⟩ (.error .tabSizeRange)) ∧
      (Source.ofBytes "plus.json" plusOne).parse 256 ⟨.relaxed, {}, .tooWide⟩ =
        .ok (.number (.int 1)) ∧
      (∃ report, (Source.ofBytes "array.json" [0x5b, 0x2b, 0x31, 0x5d]).parse 0 .strict =
        .error (.rejected ⟨.recursionExhausted 1, 1⟩ report)) ∧
      (Source.ofBytes "array.json" [0x5b, 0x2b, 0x31, 0x5d]).parse 1 .relaxed =
        .ok (.array [.number (.int 1)]) := by
  have hreport : Report.ofFailure (.ofBytes "plus.json" plusOne) .tooWide
      ⟨.notEnabled .explicitPlus, 0⟩ = .error .tabSizeRange :=
    Report.ofFailure_of_tooWide rfl (position_plusOne _) (by decide) (by decide)
  exact ⟨(Source.parse_eq_error rfl).2 ⟨by cbv, hreport.symm⟩, (Source.parse_eq_ok rfl).2 (by cbv),
    ⟨_, (Source.parse_eq_error rfl).2 ⟨by cbv, rfl⟩⟩, (Source.parse_eq_ok rfl).2 (by cbv)⟩

end LocatedJson
