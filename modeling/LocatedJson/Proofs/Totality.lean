import LocatedJson.Proofs.FirstError
import LocatedJson.Proofs.Machine.Parsing
import LocatedJson.Proofs.Reports

/-! Every parse ends with a value or with a failure inside the text. The machine, which asks before
each operation whether it is defined, is told that it is not only where a failure cannot be shown,
and where a number has too many digits to be converted. -/
namespace LocatedJson

theorem upperBoundWithin_le (entries : Array Nat) (key : Int) (low high : Nat) (h : low ≤ high) :
    upperBoundWithin entries key low high ≤ high := by
  fun_induction upperBoundWithin entries key low high with
  | case1 low high hlt middle hafter ih => omega
  | case2 low high hlt middle hafter ih => omega
  | case3 low high hlt => exact h

theorem Contents.lineOf_le (c : Contents) (index : Int) : c.lineOf index ≤ c.starts.size :=
  upperBoundWithin_le c.starts index 0 c.starts.size (Nat.zero_le _)

namespace Machine

variable {c : Contents}

theorem startOf_eq {line : Nat} (h : line ≤ c.starts.size) :
    startOf c line = .ok (c.startOf line) := by
  unfold startOf Contents.startOf
  by_cases hline : line = 0
  · rw [if_pos hline, if_pos hline]
    rfl
  · rw [if_neg hline, if_neg hline, Array.getElem?_eq_getElem (by omega)]
    rfl

theorem endOf_eq (c : Contents) (line : Nat) : endOf c line = .ok (c.endOf line) := by
  unfold endOf Contents.endOf
  by_cases hline : line < c.starts.size
  · rw [if_pos hline, Array.getElem?_eq_getElem hline]
    rfl
  · rw [if_neg hline, Array.getElem?_eq_none (by omega)]
    rfl

theorem foldlM_nextColumn {tabSize : Int} (h : tabSize ≠ 0) (bytes : List Byte) (column : Int) :
    bytes.foldlM (nextColumn tabSize) column = .ok (bytes.foldl (columnAfter tabSize) column) := by
  induction bytes generalizing column with
  | nil => rfl
  | cons b bytes ih =>
    have hnext : nextColumn tabSize column b = .ok (columnAfter tabSize column b) := by
      unfold nextColumn columnAfter
      rw [if_neg h]
      split <;> rfl
    rw [List.foldlM_cons, hnext, List.foldl_cons]
    exact ih _

example : [Byte.tab].foldlM (nextColumn 0) 0 = .error .divisionByZero := rfl

theorem position_eq {tabSize : Int} (h : tabSize ≠ 0) (index : Int) :
    position c tabSize index = .ok (c.position tabSize index) := by
  unfold position
  simp only [startOf_eq (c.lineOf_le _), bind, Except.bind, foldlM_nextColumn h]
  rfl

theorem lineText_eq {line : Nat} (h : line ≤ c.starts.size) :
    lineText c line = .ok (c.lineText line) := by
  have hline : ¬ ((line : Int) < 0 || (c.starts.size : Int) < line) = true := by
    simp only [Bool.or_eq_true, decide_eq_true_eq]
    omega
  unfold lineText Contents.lineText
  simp only [startOf_eq h, endOf_eq, bind, Except.bind, if_neg hline, Int.toNat_natCast]
  rfl

/-- The trap that is met where a place cannot be shown. -/
def Trap.ofFault : DisplayFault → Trap
  | .undefinedStop => .divisionByZero
  | .overlongNumber => .overlongNumber
  | .tabSizeRange => .tabSizeRange

theorem written_eq (n : Int) :
    written n = if isShown n then .ok (toString n) else .error .overlongNumber := by
  unfold written
  rw [if_congr (isShown_iff n) rfl rfl]
  by_cases h : 4300 < (Nat.digits 10 n.natAbs).length
  · rw [if_pos h, if_neg (Nat.not_le_of_lt h)]
    rfl
  · rw [if_neg h, if_pos (Nat.le_of_not_lt h)]
    rfl

theorem place_eq {s : Source} (hc : s.contents = some c) (r : Reporting) (index : Int) :
    place c s.displayName r.tabSize.val index =
      (s.locate? r.tabSize.val index).mapError Trap.ofFault := by
  have htab : (r.tabSize.val : Int) ≠ 0 := Int.natCast_ne_zero.2 r.tabSize.property.ne'
  have hdefined : s.hasUndefinedStop r.tabSize.val index = false := by
    simp [Source.hasUndefinedStop, r.tabSize.property.ne']
  have hposition : s.position r.tabSize.val index = c.position r.tabSize.val index := by
    rw [Source.position, hc]
  unfold place Source.locate? renderLineColumn
  simp only [position_eq htab, written_eq, hdefined, hposition, bind, Except.bind]
  cases isShown ((c.position r.tabSize.val index).line + 1) with
  | false => rfl
  | true => cases isShown ((c.position r.tabSize.val index).column + 1) <;> rfl

theorem excerpt_eq {s : Source} (hc : s.contents = some c) (r : Reporting) (index : Int) :
    excerpt c r.tabSize.val index = (s.excerpt? r.tabSize.val index).mapError Trap.ofFault := by
  unfold excerpt expandTabs Source.excerpt? Source.excerpt
  simp only [startOf_eq (c.lineOf_le _), lineText_eq (c.lineOf_le _), hc, bind, Except.bind]
  cases Text.isTabSize r.tabSize.val <;> rfl

theorem report_eq {s : Source} (hc : s.contents = some c) (r : Reporting) (failure : Failure) :
    report c s.displayName r failure.cause failure.offset =
      (Report.ofFailure s r failure).mapError Trap.ofFault := by
  unfold report Report.ofFailure Report.ofCause Report.build
  rw [place_eq hc, excerpt_eq hc]
  cases s.locate? r.tabSize.val failure.offset with
  | error fault => rfl
  | ok place =>
    cases r.withExcerpt with
    | false => rfl
    | true => cases s.excerpt? r.tabSize.val failure.offset <;> rfl

end Machine

theorem parseText_failure_within {o : Options} {l : Limits} {levels : Nat} {text : List Byte}
    {failure : Failure} (h : parseText o l levels text = .error failure)
    (hlevels : l.nestingDepth.val ≤ levels) :
    failure.offset ≤ text.length ∧ ∀ n, failure.cause ≠ .recursionExhausted n := by
  rcases parseText_error_cases h with ⟨bound, -, -, rfl⟩ | hrefused | htrailing
  · exact ⟨Nat.zero_le _, nofun⟩
  · have hstack := hrefused.ne_recursionExhausted hlevels
    obtain ⟨start, hpin⟩ := hrefused.pinpoints hstack
    exact ⟨hpin.offset_le, hstack⟩
  · obtain ⟨start, hpin⟩ := htrailing.pinpoints (l := l)
    refine ⟨hpin.offset_le, ?_⟩
    obtain ⟨-, -, -, -, -, -, -, rfl⟩ := htrailing
    nofun

/-- The machine on a buffer ends as the parse of its text does, or in the trap that keeps a failure
from being shown. -/
theorem Machine.parse_eq {s : Source} {c : Contents} (hc : s.contents = some c) (levels : Nat)
    (config : Config) :
    Machine.parse c s.displayName levels config =
      match parseText config.options config.limits levels c.text with
      | .ok v => .value v
      | .error failure =>
        match Report.ofFailure s config.reporting failure with
        | .ok report => .failed failure.cause failure.offset report
        | .error fault => .trapped (.ofFault fault) := by
  have hideal := document_eq c config.options config.limits levels
  unfold Machine.parse parseTaking
  cases hparse : parseText config.options config.limits levels c.text with
  | ok v =>
    rw [hparse] at hideal
    obtain ⟨st, hmachine⟩ := hideal
    rw [hmachine]
  | error failure =>
    rw [hparse] at hideal
    obtain ⟨st, hmachine⟩ := hideal
    rw [hmachine]
    dsimp only
    rw [report_eq hc]
    cases Report.ofFailure s config.reporting failure <;> rfl

/-- Conversion that takes fewer digits changes nothing but where it meets a number with more. -/
theorem Machine.parseTaking_cases (takes : Numeral → Bool) (c : Contents) (name : String)
    (levels : Nat) (config : Config) :
    parseTaking takes c name levels config = parse c name levels config ∨
      parseTaking takes c name levels config = .trapped .notANumber ∧ Resists takes c.text := by
  have hideal := document_eq c config.options config.limits levels
  rcases document_agrees takes c config.options config.limits levels with
    hagrees | ⟨hresists, st, htrapped⟩
  · left
    unfold parse parseTaking
    cases hparse : parseText config.options config.limits levels c.text with
    | ok v =>
      rw [hparse] at hideal hagrees
      obtain ⟨st, hideal⟩ := hideal
      obtain ⟨st', hagrees⟩ := hagrees
      rw [hideal, hagrees]
    | error failure =>
      rw [hparse] at hideal hagrees
      obtain ⟨st, hideal⟩ := hideal
      obtain ⟨st', hagrees⟩ := hagrees
      rw [hideal, hagrees]
  · refine .inr ⟨?_, hresists⟩
    rw [parseTaking, htrapped]

/-- A number with more digits, by itself in a text, is met. -/
theorem Machine.parseTaking_decimal {takes : Numeral → Bool} {n : Grammar.Decimal}
    {config : Config} (hn : n.Admitted config.options) (hsize : config.limits.inputSize = none)
    (hlength : config.limits.numberLength = none) (hfloat : n.numeral.isInteger = false)
    (htakes : takes n.numeral = false) (name : String) (levels : Nat) :
    parseTaking takes (.ofBytes n.text) name levels config = .trapped .notANumber := by
  obtain ⟨stop, hnext⟩ := nextToken_decimal (l := config.limits) (Contents.text_ofBytes n.text) hn
    hlength hfloat htakes
  have hvalue : ∃ st, value takes (.ofBytes n.text) config.options config.limits levels {} =
      .error (.trapped .notANumber) st := by
    cases levels <;> exact ⟨_, bind_error (current_error hnext 0)⟩
  obtain ⟨st, hvalue⟩ := hvalue
  have hviolation : config.limits.violation? .inputSize (Contents.ofBytes n.text).size = none := by
    simp [Limits.violation?_eq_none_iff, Limits.bound_inputSize, hsize]
  have hdocument : document takes (.ofBytes n.text) config.options config.limits levels {} =
      .error (.trapped .notANumber) st := by
    unfold document
    rw [hviolation]
    exact bind_error hvalue
  rw [parseTaking, hdocument]

/-- A parse gives a value or a failure at an offset of the text, and the machine comes to the same
end. It meets a trap exactly where the failure cannot be shown: when its place is written, or when
tabs are expanded. If conversion takes a thousand million digits only, there is one trap more, at a
number with more of them. -/
theorem Source.parse_total {s : Source} {c : Contents} (hc : s.contents = some c) {levels : Nat}
    (config : Config) (hlevels : config.limits.nestingDepth.val ≤ levels) :
    ((∃ v, s.parse levels config = .ok v ∧
        Machine.parse c s.displayName levels config = .value v) ∨
      ∃ failure report, s.parse levels config = .error (.rejected failure report) ∧
        failure.offset ≤ c.size ∧ (∀ n, failure.cause ≠ .recursionExhausted n) ∧
        (config.reporting.Shows s failure.offset → ∃ made, report = .ok made ∧
          Machine.parse c s.displayName levels config =
            .failed failure.cause failure.offset made) ∧
        (¬ config.reporting.Shows s failure.offset →
          report = .error .overlongNumber ∧
              Machine.parse c s.displayName levels config = .trapped .overlongNumber ∨
            report = .error .tabSizeRange ∧
              Machine.parse c s.displayName levels config = .trapped .tabSizeRange)) ∧
    (Machine.parseTaking Machine.convertible c s.displayName levels config =
        Machine.parse c s.displayName levels config ∨
      Machine.parseTaking Machine.convertible c s.displayName levels config =
          .trapped .notANumber ∧
        Machine.Resists Machine.convertible c.text) := by
  refine ⟨?_, Machine.parseTaking_cases _ c s.displayName levels config⟩
  rw [Machine.parse_eq hc]
  cases hparse : parseText config.options config.limits levels c.text with
  | ok v => exact .inl ⟨v, (Source.parse_eq_ok hc).2 hparse, rfl⟩
  | error failure =>
    have hwithin := parseText_failure_within hparse hlevels
    rw [Contents.length_text] at hwithin
    refine .inr ⟨failure, _, (Source.parse_eq_error hc).2 ⟨hparse, rfl⟩, hwithin.1, hwithin.2, ?_⟩
    dsimp only
    constructor
    · intro hshows
      rw [Report.ofFailure_ok hshows]
      exact ⟨_, rfl, rfl⟩
    · intro hhides
      rcases Report.ofFailure_fault hhides with hreport | hreport
      · rw [hreport]
        exact .inl ⟨rfl, rfl⟩
      · rw [hreport]
        exact .inr ⟨rfl, rfl⟩

def halfEscape : List Byte :=
  [0x5b, 0x22, 0x5c, 0x75, 0x64, 0x38, 0x33, 0x64, 0x5c, 0x75, 0x64]

theorem Source.parse_halfEscape_total :
    ∃ report, Machine.parse (.ofBytes halfEscape) "half.json" 256 .strict =
      .failed .unterminatedString 11 report := by
  have hparse : parseText .strict {} 256 halfEscape = .error ⟨.unterminatedString, 11⟩ := by cbv
  have hposition : (Source.ofBytes "half.json" halfEscape).position (8 : Nat) (11 : Nat) =
      ⟨0, 11⟩ := by cbv
  have hshows : Config.strict.reporting.Shows (.ofBytes "half.json" halfEscape) (11 : Nat) :=
    Reporting.shows_of_lt hposition (by decide) (by decide) (by decide)
  rcases (Source.parse_total (s := .ofBytes "half.json" halfEscape) rfl .strict
    (by decide : 256 ≤ 256)).1 with ⟨v, hv, -⟩ | ⟨failure, report, hfailure, -, -, hshown, -⟩
  · have hok := (Source.parse_eq_ok rfl).1 hv
    cases hparse.symm.trans hok
  · have herror := ((Source.parse_eq_error rfl).1 hfailure).1
    obtain rfl := Except.error.inj (hparse.symm.trans herror)
    obtain ⟨made, -, hmachine⟩ := hshown hshows
    exact ⟨made, hmachine⟩

/-- A letter is refused, and instead of being shown the failure runs into a trap. -/
theorem Source.parse_letter_trapped :
    (Source.ofBytes "letter.json" [0x78]).parse 256 { reporting := .tooWide } =
        .error (.rejected ⟨.unexpectedCharacter 0x78, 0⟩ (.error .tabSizeRange)) ∧
      Machine.parse (.ofBytes [0x78]) "letter.json" 256 { reporting := .tooWide } =
        .trapped .tabSizeRange := by
  have hparse : parseText {} {} 256 (Contents.ofBytes [0x78]).text =
      .error ⟨.unexpectedCharacter 0x78, 0⟩ := by cbv
  have hposition : (Source.ofBytes "letter.json" [0x78]).position (2 ^ 31 : Nat) (0 : Nat) =
      ⟨0, 0⟩ := by cbv
  have hreport : Report.ofFailure (.ofBytes "letter.json" [0x78]) .tooWide
      ⟨.unexpectedCharacter 0x78, 0⟩ = .error .tabSizeRange :=
    Report.ofFailure_of_tooWide rfl hposition (by decide) (by decide)
  have hmachine := Machine.parse_eq (s := .ofBytes "letter.json" [0x78]) rfl 256
    { reporting := .tooWide }
  simp only [hparse, hreport] at hmachine
  exact ⟨(Source.parse_eq_error rfl).2 ⟨hparse, hreport.symm⟩, hmachine⟩

/-- Behind a tab, a tab size of more than 4300 digits makes a column that is not written out. -/
theorem Source.parse_tab_overlong (tabSize : Positive)
    (h : 4300 < (Nat.digits 10 (tabSize.val + 1)).length) :
    (Source.ofBytes "tab.json" [0x09, 0x78]).parse 256 { reporting := { tabSize } } =
      .error (.rejected ⟨.unexpectedCharacter 0x78, 1⟩ (.error .overlongNumber)) := by
  have hparse : parseText {} {} 256 (Contents.ofBytes [0x09, 0x78]).text =
      .error ⟨.unexpectedCharacter 0x78, 1⟩ := by cbv
  have hfront : (Contents.ofBytes [0x09, 0x78]).lineFront (1 : Nat) = [0x09] := by cbv
  have hcolumn : ((Source.ofBytes "tab.json" [0x09, 0x78]).position tabSize.val (1 : Nat)).column =
      tabSize.val := by
    show ((Contents.ofBytes [0x09, 0x78]).lineFront (1 : Nat)).foldl (columnAfter tabSize.val) 0 = _
    rw [hfront]
    simp [columnAfter]
  refine (Source.parse_eq_error rfl).2
    ⟨hparse, (Report.ofFailure_overlong fun hwritable => ?_).symm⟩
  have hle := hwritable.2
  rw [hcolumn, ← Int.natCast_succ, Int.toNat_natCast] at hle
  exact absurd hle (Nat.not_le_of_lt h)

end LocatedJson
