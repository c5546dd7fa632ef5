import LocatedJson.Document
import LocatedJson.Proofs.Parsing.Sound

/-! Whole texts: one value between gaps, behind the check of the size. -/
namespace LocatedJson

open LocatedJson.Grammar LocatedJson.Parser

variable {o : Options} {l : Limits} {levels : Nat} {text : List Byte} {v : Value}

namespace Parser

/-- What is done behind the value of a document. -/
def ending (v : Value) : ParserM Value := do
  atCursor Cursor.skipBlanks
  let s ← get
  if s.atEnd then return v else fail .trailingData s.pos

theorem atCursor_skipBlanks (front : List Byte) (back : Gap) {rest : List Byte}
    (h : Stops Byte.isBlank rest) :
    atCursor Cursor.skipBlanks ⟨.behind front (back.bytes ++ rest), none, 0⟩ =
      .ok () ⟨.behind (front ++ back.bytes) rest, none, 0⟩ := by
  have hskip : (Cursor.behind front (back.bytes ++ rest)).rest.takeWhile Byte.isBlank =
      back.bytes := takeWhile_append_stop back.blank h
  simp only [atCursor, Cursor.skipBlanks, hskip, Cursor.advance_behind]

theorem ending_ok (front : List Byte) (back : Gap) :
    ending v ⟨.behind front back.bytes, none, 0⟩ =
      .ok v ⟨.behind (front ++ back.bytes) [], none, 0⟩ := by
  have hskip := atCursor_skipBlanks front back (stops_nil _)
  rw [List.append_nil] at hskip
  unfold ending
  rw [bind_ok hskip]
  rfl

theorem ending_trailing (front : List Byte) (back : Gap) {b : Byte} {rest : List Byte}
    (h : b.isBlank = false) :
    ending v ⟨.behind front (back.bytes ++ b :: rest), none, 0⟩ =
      .error ⟨.trailingData, (front ++ back.bytes).length⟩
        ⟨.behind (front ++ back.bytes) (b :: rest), none, 0⟩ := by
  unfold ending
  rw [bind_ok (atCursor_skipBlanks front back ((stops_cons _ _ _).2 h))]
  rfl

theorem checkLimit_ok {size : Nat} (h : ∀ bound ∈ l.bound .inputSize, size ≤ bound) (st : State) :
    checkLimit l .inputSize size 0 st = .ok () st := by
  rw [checkLimit, Limits.violation?_eq_none_iff.2 h]
  rfl

end Parser

theorem parseText_within (h : ∀ bound ∈ l.bound .inputSize, text.length ≤ bound) :
    parseText o l levels text =
      match (topValue o l levels >>= ending) ⟨.behind [] text, none, 0⟩ with
      | .ok v _ => .ok v
      | .error failure _ => .error failure := by
  have hdocument : document o l levels text.length (.start text) =
      (topValue o l levels >>= ending) ⟨.behind [] text, none, 0⟩ := by
    unfold document
    have hreset : reset (.start text) = .ok () ⟨.behind [] text, none, 0⟩ := rfl
    rw [bind_ok hreset, bind_ok (checkLimit_ok h _)]
    rfl
  rw [← hdocument]
  rfl

theorem parseText_oversize {bound : Nat} (h : bound ∈ l.bound .inputSize)
    (hlt : bound < text.length) :
    parseText o l levels text = .error ⟨.limitExceeded .inputSize text.length bound, 0⟩ := by
  have hsome := Limits.violation?_of_lt h hlt
  have hdocument : document o l levels text.length (.start text) =
      .error ⟨.limitExceeded .inputSize text.length bound, 0⟩ ⟨.behind [] text, none, 0⟩ := by
    have hreset : reset (.start text) = .ok () ⟨.behind [] text, none, 0⟩ := rfl
    have hcheck (st : State) : checkLimit l .inputSize text.length 0 st =
        .error ⟨.limitExceeded .inputSize text.length bound, 0⟩ st := by
      rw [checkLimit, hsome]
      rfl
    unfold document
    rw [bind_ok hreset, bind_error (hcheck _)]
  rw [parseText, hdocument]

namespace Parser

/-- Data behind the value, at a byte that is no blank. -/
def Trailing (o : Options) (text : List Byte) (failure : Failure) : Prop :=
  ∃ (front : Gap) (p : Phrase .value) (back : Gap) (b : Byte) (rest : List Byte),
    (Place.after .root front p back).Reached o text (b :: rest) ∧ b.isBlank = false ∧
    failure = ⟨.trailingData, (Place.after .root front p back).text.length⟩

/-- A document that the text is and that keeps the limits on its parts. -/
def Spells (o : Options) (l : Limits) (text : List Byte) (v : Value) : Prop :=
  ∃ d : Document, d.text = text ∧ d.Admitted o .paired ∧ d.phrase.Within l ∧
    d.phrase.nesting ≤ l.nestingDepth.val ∧ d.phrase.value = v

theorem topValue_gives (o : Options) (l : Limits) (levels : Nat) (text : List Byte) :
    Gives (topValue o l levels ⟨.behind [] text, none, 0⟩) (ValueRead o l 0 [] text)
      (Refused o l levels text) :=
  value_gives o l levels 0 .root text _ nofun nofun (looks_none _ 0)

theorem whole_gives (o : Options) (l : Limits) (levels : Nat) (text : List Byte) :
    Gives ((topValue o l levels >>= ending) ⟨.behind [] text, none, 0⟩)
      (fun v _ => Spells o l text v)
      (fun failure => Refused o l levels text failure ∨ Trailing o text failure) := by
  have htop := topValue_gives o l levels text
  cases hresult : topValue o l levels ⟨.behind [] text, none, 0⟩ with
  | error failure st =>
    rw [bind_error hresult]
    rw [hresult] at htop
    exact .inl htop
  | ok v st =>
    rw [bind_ok hresult]
    rw [hresult] at htop
    obtain ⟨front, p, rest, rfl, hp, hl, hends, hnesting, rfl, rfl⟩ := htop
    obtain ⟨back, tail, rfl, hstop⟩ := exists_gap rest
    cases tail with
    | nil =>
      rw [List.append_nil, ending_ok]
      exact ⟨⟨front, p, back⟩, rfl, hp, hl, hnesting, rfl⟩
    | cons b tail =>
      have hb := (stops_cons _ _ _).1 hstop
      rw [ending_trailing _ back hb]
      refine .inr ⟨front, p, back, b, tail, ⟨hp, hends, ?_⟩, hb, ?_⟩
      · simp [Place.text, Context.text]
      · simp [Place.text, Context.text]

theorem whole_complete {d : Document} (hd : d.Admitted o .paired) (hl : d.phrase.Within l)
    (hnesting : d.phrase.nesting ≤ l.nestingDepth.val) (hlevels : d.phrase.nesting ≤ levels) :
    ∃ st, (topValue o l levels >>= ending) ⟨.behind [] d.text, none, 0⟩ =
      .ok d.phrase.value st := by
  have hends : d.phrase.EndsBefore d.back.bytes := by
    rw [← List.append_nil d.back.bytes]
    exact d.phrase.endsBefore_gap d.back nofun
  have hread := readable hd hl levels 0 [] d.front d.back.bytes _ hlevels hnesting hends
    (looks_none _ 0)
  exact ⟨_, (bind_ok hread).trans (ending_ok _ d.back)⟩

end Parser

theorem spells_of_parseText (h : parseText o l levels text = .ok v) : Spells o l text v := by
  by_cases hsize : ∀ bound ∈ l.bound .inputSize, text.length ≤ bound
  · have hgives := whole_gives o l levels text
    rw [parseText_within hsize] at h
    cases hresult : (topValue o l levels >>= ending) ⟨.behind [] text, none, 0⟩ with
    | ok v' st =>
      rw [hresult] at h hgives
      cases h
      exact hgives
    | error failure st =>
      rw [hresult] at h
      cases h
  · push Not at hsize
    obtain ⟨bound, hbound, hlt⟩ := hsize
    rw [parseText_oversize hbound hlt] at h
    cases h

/-- What is read is what the grammar has within the limits, if the stack has room for as many levels
as the limit on nesting admits. -/
theorem parseText_eq_ok_iff (hlevels : l.nestingDepth.val ≤ levels) :
    parseText o l levels text = .ok v ↔
      (∀ bound ∈ l.bound .inputSize, text.length ≤ bound) ∧ Spells o l text v := by
  by_cases hsize : ∀ bound ∈ l.bound .inputSize, text.length ≤ bound
  · rw [and_iff_right hsize]
    constructor
    · exact spells_of_parseText
    · rintro ⟨d, rfl, hd, hl, hnesting, rfl⟩
      obtain ⟨st, hst⟩ := whole_complete hd hl hnesting (hnesting.trans hlevels)
      rw [parseText_within hsize, hst]
  · refine iff_of_false ?_ fun h => hsize h.1
    push Not at hsize
    obtain ⟨bound, hbound, hlt⟩ := hsize
    rw [parseText_oversize hbound hlt]
    nofun

theorem parseText_error_cases {failure : Failure}
    (h : parseText o l levels text = .error failure) :
    (∃ bound ∈ l.bound .inputSize, bound < text.length ∧
      failure = ⟨.limitExceeded .inputSize text.length bound, 0⟩) ∨
    Refused o l levels text failure ∨ Trailing o text failure := by
  by_cases hsize : ∀ bound ∈ l.bound .inputSize, text.length ≤ bound
  · right
    have hgives := whole_gives o l levels text
    rw [parseText_within hsize] at h
    cases hresult : (topValue o l levels >>= ending) ⟨.behind [] text, none, 0⟩ with
    | ok v st =>
      rw [hresult] at h
      cases h
    | error failure' st =>
      rw [hresult] at h hgives
      cases h
      exact hgives
  · left
    push Not at hsize
    obtain ⟨bound, hbound, hlt⟩ := hsize
    rw [parseText_oversize hbound hlt] at h
    cases h
    exact ⟨bound, hbound, hlt, rfl⟩

/-! A source with contents is parsed as its text is. -/

theorem Source.parse_eq_ok {s : Source} {c : Contents} (hc : s.contents = some c) {config : Config}
    {v : Value} :
    s.parse levels config = .ok v ↔
      parseText config.options config.limits levels c.text = .ok v := by
  unfold Source.parse
  rw [hc]
  dsimp only
  cases parseText config.options config.limits levels c.text with
  | ok v' => simp only [Except.ok.injEq]
  | error failure => exact ⟨nofun, nofun⟩

theorem Source.parse_eq_error {s : Source} {c : Contents} (hc : s.contents = some c)
    {config : Config} {failure : Failure} {report : Except DisplayFault Report} :
    s.parse levels config = .error (.rejected failure report) ↔
      parseText config.options config.limits levels c.text = .error failure ∧
        report = Report.ofFailure s config.reporting failure := by
  unfold Source.parse
  rw [hc]
  dsimp only
  cases parseText config.options config.limits levels c.text with
  | ok v => simp
  | error failure' =>
    simp only [Except.error.injEq, Refusal.rejected.injEq]
    constructor
    · rintro ⟨rfl, rfl⟩
      exact ⟨rfl, rfl⟩
    · rintro ⟨rfl, rfl⟩
      exact ⟨rfl, rfl⟩

def Source.outcome (s : Source) (config : Config) : Except Failure Value → Except Refusal Value
  | .ok v => .ok v
  | .error failure => .error (.rejected failure (Report.ofFailure s config.reporting failure))

theorem Source.parse_eq_outcome {s : Source} {c : Contents} (hc : s.contents = some c)
    (config : Config) :
    s.parse levels config =
      s.outcome config (parseText config.options config.limits levels c.text) := by
  unfold Source.parse
  rw [hc]
  dsimp only
  cases parseText config.options config.limits levels c.text <;> rfl

end LocatedJson
