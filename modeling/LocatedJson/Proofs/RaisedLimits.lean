import LocatedJson.Proofs.Pushdown.Agreement

/-! Raised limits. Two runs under limits of which one set lies below the other go side by side,
token by token, until the lower limits stop the first. They do so at the start of a token, and the
second run, which has come as far, can fail only there or behind. -/
namespace LocatedJson

open Pushdown

def SameUnless {ε α : Type} (stopped : ε → Prop) (r r' : Except ε α) : Prop :=
  r = r' ∨ ∃ e, r = .error e ∧ stopped e

theorem SameUnless.refl {ε α : Type} {stopped : ε → Prop} (r : Except ε α) :
    SameUnless stopped r r := .inl rfl

theorem SameUnless.map {ε α β : Type} {stopped : ε → Prop} {r r' : Except ε α}
    (h : SameUnless stopped r r') (f : α → β) : SameUnless stopped (r.map f) (r'.map f) := by
  rcases h with rfl | ⟨e, rfl, he⟩
  · exact .refl _
  · exact .inr ⟨e, rfl, he⟩

/-- A literal that is refused for its size, which is told at its first byte. -/
def Fault.TooLarge (f : Fault) : Prop := f.offset = 0 ∧ f.cause.kind = .limit

def Failure.IsLimit (failure : Failure) : Prop := failure.cause.kind = .limit

/-- What the second limits bound the first bound too, and no higher. -/
def Limits.Below (l l' : Limits) : Prop :=
  ∀ m, ∀ bound' ∈ l'.bound m, ∃ bound ∈ l.bound m, bound ≤ bound'

namespace Limits.Below

variable {o : Options} {l l' : Limits}

theorem violation_none (h : l.Below l') {m : Measure} {n : Nat} (hl : l.violation? m n = none) :
    l'.violation? m n = none := by
  rw [Limits.violation?_eq_none_iff] at hl ⊢
  intro bound' hbound'
  obtain ⟨bound, hbound, hle⟩ := h m bound' hbound'
  exact (hl bound hbound).trans hle

theorem check_same {ε α : Type} {stopped : ε → Prop} (h : l.Below l') (m : Measure) (n : Nat)
    {refuse : Cause → ε} (hrefuse : ∀ cause, cause.kind = .limit → stopped (refuse cause))
    (r : Except ε α) :
    SameUnless stopped
      (match l.violation? m n with | some cause => .error (refuse cause) | none => r)
      (match l'.violation? m n with | some cause => .error (refuse cause) | none => r) := by
  cases hl : l.violation? m n with
  | some cause =>
    obtain ⟨bound, -, -, rfl⟩ := Limits.violation?_eq_some hl
    exact .inr ⟨_, rfl, hrefuse _ rfl⟩
  | none =>
    rw [h.violation_none hl]
    exact .refl _

theorem scanString_same (h : l.Below l') (quote : Byte) (bytes : List Byte) :
    SameUnless Fault.TooLarge (StringLiteral.scan o l quote bytes)
      (StringLiteral.scan o l' quote bytes) := by
  unfold StringLiteral.scan
  split
  · exact .refl _
  · split
    · exact .refl _
    · exact h.check_same .stringLength _ (fun _ hkind => ⟨rfl, hkind⟩) _

theorem scanNumber_same (h : l.Below l') (bytes : List Byte) :
    SameUnless Fault.TooLarge (Number.scan o l bytes) (Number.scan o l' bytes) := by
  unfold Number.scan
  split
  · exact .refl _
  · split
    · exact .refl _
    · exact h.check_same .numberLength _ (fun _ hkind => ⟨rfl, hkind⟩) _

theorem scan_same (h : l.Below l') (bytes : List Byte) :
    SameUnless Fault.TooLarge (Token.Kind.scan o l bytes) (Token.Kind.scan o l' bytes) := by
  unfold Token.Kind.scan
  split
  · exact .refl _
  · split
    · exact .refl _
    · split
      · exact (h.scanString_same _ _).map _
      · split
        · exact (h.scanNumber_same _).map _
        · exact .refl _

theorem nextToken_same (h : l.Below l') (c : Cursor) :
    Cursor.nextToken o l c = Cursor.nextToken o l' c ∨
      ∃ failure c', Cursor.nextToken o l c = .error failure c' ∧ failure.IsLimit ∧
        failure.offset = c.skipped.pos := by
  rw [Cursor.nextToken_eq_scan, Cursor.nextToken_eq_scan]
  rcases h.scan_same (o := o) c.skipped.rest with heq | ⟨f, hf, hoffset, hkind⟩
  · rw [heq]
    exact .inl rfl
  · rw [hf]
    exact .inr ⟨_, _, rfl, hkind, by simp [hoffset]⟩

theorem nextToken_ok (h : l.Below l') {c c' : Cursor} {t : Token}
    (hnext : Cursor.nextToken o l c = .ok t c') : Cursor.nextToken o l' c = .ok t c' := by
  rcases h.nextToken_same (o := o) c with heq | ⟨failure, c'', hstop, -⟩
  · exact heq.symm.trans hnext
  · rw [hstop] at hnext
    cases hnext

theorem push_same (h : l.Below l') (s : Structure) (frames : List Frame) (offset : Nat) :
    SameUnless Failure.IsLimit (push l s frames offset) (push l' s frames offset) :=
  h.check_same .nestingDepth _ (fun _ hkind => hkind) _

theorem stepValue_same (h : l.Below l') (frames : List Frame) (t : Token) :
    SameUnless Failure.IsLimit (stepValue l frames t) (stepValue l' frames t) := by
  unfold stepValue
  split
  · exact .refl _
  · exact .refl _
  · exact .refl _
  · exact .refl _
  · exact h.push_same .object frames t.offset
  · exact h.push_same .array frames t.offset
  · exact .refl _

theorem stepItem_same (h : l.Below l') (s : Structure) (entries : List s.Entry)
    (frames : List Frame) (t : Token) : SameUnless Failure.IsLimit (stepItem l s entries frames t)
      (stepItem l' s entries frames t) := by
  cases s with
  | array => exact h.stepValue_same _ t
  | object => exact .refl _

theorem step_same (h : l.Below l') (st : State) (t : Token) :
    SameUnless Failure.IsLimit (step l st t) (step l' st t) := by
  cases st with
  | value frames => exact h.stepValue_same frames t
  | first s frames =>
    rw [step, step]
    split
    · exact .refl _
    · exact h.stepItem_same s [] frames t
  | item s entries frames => exact h.stepItem_same s entries frames t
  | colon members key frames => exact .refl _
  | separator s entries frames => exact .refl _

end Limits.Below

/-- A limit stops the first run, and the second has come as far. -/
def Outlasted (r' : Except Failure Value) (failure : Failure) : Prop :=
  failure.IsLimit ∧ ∀ failure', r' = .error failure' → failure.offset ≤ failure'.offset

namespace Lexed

variable {o : Options} {l l' : Limits}

theorem close_cut_eq (v : Value) (c : Cursor) : (cut o l c).close v = (cut o l' c).close v := by
  obtain ⟨text, hc⟩ := Cursor.exists_behind c
  obtain ⟨gap, rest, hrest, hstop⟩ := Grammar.exists_gap c.rest
  rw [hc, hrest]
  cases rest with
  | nil => rw [List.append_nil, close_cut_gap, close_cut_gap]
  | cons b tail => rw [close_cut_cons v text gap hstop, close_cut_cons v text gap hstop]

theorem outlasted_of_start {c : Cursor} {st : State} {failure : Failure} (hlimit : failure.IsLimit)
    (hoffset : failure.offset = c.skipped.pos) :
    Outlasted ((cut o l' c).run l' st) failure := by
  refine ⟨hlimit, fun failure' h' => ?_⟩
  have hle := start_le_of_run h'
  rw [start_cut] at hle
  omega

/-- The two runs side by side, by induction on the tokens of the first. -/
theorem run_raised (h : l.Below l') (c : Cursor) (st : State) :
    SameUnless (Outlasted ((cut o l' c).run l' st)) ((cut o l c).run l st)
      ((cut o l' c).run l' st) := by
  induction c using token_induction o l generalizing st with
  | refused c failure c' hnext =>
    rcases h.nextToken_same (o := o) c with heq | ⟨failure, c', hstop, hlimit, hoffset⟩
    · rw [run_cut_error hnext, run_cut_error (heq.symm.trans hnext)]
      exact .refl _
    · exact .inr ⟨failure, run_cut_error hstop, outlasted_of_start hlimit hoffset⟩
  | finish c offset c' hnext =>
    rw [run_cut_eof hnext, run_cut_eof (h.nextToken_ok hnext)]
    exact .refl _
  | token c t c' hnext heof ih =>
    have hnext' := h.nextToken_ok hnext
    rcases h.step_same st t with hstep | ⟨failure, hstop, hlimit⟩
    · cases hresult : step l st t with
      | error failure =>
        rw [run_cut_refused hnext heof hresult,
          run_cut_refused hnext' heof (hstep.symm.trans hresult)]
        exact .refl _
      | ok p =>
        rw [run_cut_ok hnext heof hresult, run_cut_ok hnext' heof (hstep.symm.trans hresult)]
        cases p with
        | due st' => exact ih st'
        | done v => exact .inl (close_cut_eq v c')
    · have hstart : t.offset = c.skipped.pos := by
        rw [← start_cut (o := o) (l := l), cut_token hnext heof]
        rfl
      refine .inr ⟨failure, run_cut_refused hnext heof hstop, outlasted_of_start hlimit ?_⟩
      rw [offset_of_step hstop, hstart]

end Lexed

theorem parseText_raised {o : Options} {l l' : Limits} (h : l.Below l')
    (hlevels : l'.nestingDepth.val ≤ levels) (text : List Byte) :
    SameUnless (Outlasted (parseText o l' levels text)) (parseText o l levels text)
      (parseText o l' levels text) := by
  obtain ⟨bound, hbound, hle⟩ := h .nestingDepth _ rfl
  cases hbound
  rw [parseText_eq_parse_ofText (hle.trans hlevels), parseText_eq_parse_ofText hlevels]
  unfold Lexed.parse
  cases hl : l.violation? .inputSize text.length with
  | some cause =>
    obtain ⟨bound, -, -, rfl⟩ := Limits.violation?_eq_some hl
    exact .inr ⟨_, rfl, rfl, fun _ _ => Nat.zero_le _⟩
  | none =>
    rw [h.violation_none hl]
    exact Lexed.run_raised h (.start text) (.value [])

/-- Limits that are raised keep every value and every error of the grammar; behind a limit that was
broken at an offset, a value or an error at no lower offset comes to light. -/
theorem Source.parse_raised {s : Source} {c : Contents} (hc : s.contents = some c) (o : Options)
    (r : Reporting) {l l' : Limits} {levels : Nat} (h : l.Below l')
    (hlevels : l'.nestingDepth.val ≤ levels) :
    (∀ v, s.parse levels ⟨o, l, r⟩ = .ok v → s.parse levels ⟨o, l', r⟩ = .ok v) ∧
    (∀ failure report, s.parse levels ⟨o, l, r⟩ = .error (.rejected failure report) →
      failure.cause.kind = .grammar →
        s.parse levels ⟨o, l', r⟩ = .error (.rejected failure report)) ∧
    (∀ failure report, s.parse levels ⟨o, l, r⟩ = .error (.rejected failure report) →
      failure.cause.kind = .limit →
        (∃ v, s.parse levels ⟨o, l', r⟩ = .ok v) ∨
          ∃ failure' report', s.parse levels ⟨o, l', r⟩ = .error (.rejected failure' report') ∧
            failure.offset ≤ failure'.offset) := by
  simp only [Source.parse_eq_ok hc, Source.parse_eq_error hc]
  rcases parseText_raised (o := o) h hlevels c.text with heq | ⟨failure, hfailure, hlimit, hle⟩
  · rw [heq]
    refine ⟨fun _ hv => hv, fun _ _ herror _ => herror, fun failure report herror _ => ?_⟩
    exact .inr ⟨failure, report, herror, Nat.le_refl _⟩
  · rw [hfailure]
    refine ⟨nofun, ?_, ?_⟩
    · rintro _ report ⟨⟨⟩, -⟩ hkind
      rw [Failure.IsLimit, hkind] at hlimit
      cases hlimit
    · rintro _ report ⟨⟨⟩, -⟩ -
      cases hresult : parseText o l' levels c.text with
      | ok v => exact .inl ⟨v, rfl⟩
      | error failure' => exact .inr ⟨failure', _, ⟨rfl, rfl⟩, hle failure' hresult⟩

def Limits.ofDepth (depth : Positive) : Limits := { nestingDepth := depth }

theorem Limits.below_ofDepth {depth depth' : Positive} (h : depth ≤ depth') :
    (ofDepth depth).Below (ofDepth depth') := by
  intro m bound' hbound'
  cases m with
  | nestingDepth =>
    cases hbound'
    exact ⟨depth, rfl, h⟩
  | _ => cases hbound'

def nestedArray : List Byte := [0x5b, 0x5b, 0x31, 0x5d]

/-- With one level the second bracket is refused. With two the missing end is told of, behind it. -/
theorem Source.parse_raised_nestedArray :
    ∃ failure report, (Source.ofBytes "nested.json" nestedArray).parse 256
      ⟨.strict, .ofDepth ⟨2, by decide⟩, {}⟩ = .error (.rejected failure report) ∧
        1 ≤ failure.offset := by
  have hlow : (Source.ofBytes "nested.json" nestedArray).parse 256
      ⟨.strict, .ofDepth ⟨1, by decide⟩, {}⟩ =
        .error (.rejected ⟨.limitExceeded .nestingDepth 2 1, 1⟩ (Report.ofFailure _ {} _)) :=
    (Source.parse_eq_error rfl).2 ⟨by cbv, rfl⟩
  have hhigh : parseText .strict (.ofDepth ⟨2, by decide⟩) 256 nestedArray =
      .error ⟨.unterminated .array, 4⟩ := by cbv
  have hbelow : (Limits.ofDepth ⟨1, by decide⟩).Below (.ofDepth ⟨2, by decide⟩) :=
    Limits.below_ofDepth (by decide)
  have hraised := Source.parse_raised (s := .ofBytes "nested.json" nestedArray) rfl .strict {}
    hbelow (by decide : 2 ≤ 256)
  rcases hraised.2.2 _ _ hlow rfl with ⟨v, hv⟩ | hlater
  · have hok := (Source.parse_eq_ok rfl).1 hv
    cases hhigh.symm.trans hok
  · exact hlater

end LocatedJson
