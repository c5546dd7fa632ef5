import LocatedJson.Proofs.Pushdown.Steps

/-! The pushdown machine comes to the same end as the parser. Of each part of the parser it is
shown that the machine, started before what the part reads, has the result that it has behind it:
where the parser returns to a caller, the machine takes a frame from its stack. -/
namespace LocatedJson

open Grammar Pushdown

namespace Parser

open Lexed (cut run_cut_error run_cut_eof run_cut_ok run_cut_due run_cut_refused run_first)

variable {o : Options} {l : Limits} {c c' : Cursor} {d : Nat} {st : Parser.State} {s : Structure}

theorem unexpected_token {α : Type} {t : Token} (ht : t.kind ≠ .eof) (wanted : Wanted) :
    (unexpected t wanted s : ParserM α) st =
      .error ⟨.unexpectedToken wanted t.kind, t.offset⟩ st := by
  obtain ⟨kind, offset⟩ := t
  cases kind with
  | eof => exact absurd rfl ht
  | _ => rfl

section Ahead

variable {α : Type} {f : Token → ParserM α} {good : α → Parser.State → Prop} {bad : Failure → Prop}

theorem gives_current (hst : Looks o l c d st)
    (hok : ∀ t c', Cursor.nextToken o l c = .ok t c' → Gives (f t ⟨c', some t, d⟩) good bad)
    (herror : ∀ failure c', Cursor.nextToken o l c = .error failure c' → bad failure) :
    Gives ((current o l >>= f) st) good bad := by
  cases hnext : Cursor.nextToken o l c with
  | ok t c' =>
    rw [bind_ok (current_ok hst hnext)]
    exact hok t c' hnext
  | error failure c' =>
    rw [bind_error (current_error hst hnext)]
    exact herror failure c' hnext

theorem gives_advance (hst : Looks o l c d st)
    (hok : ∀ t c', Cursor.nextToken o l c = .ok t c' → Gives (f t ⟨c', none, d⟩) good bad)
    (herror : ∀ failure c', Cursor.nextToken o l c = .error failure c' → bad failure) :
    Gives ((advance o l >>= f) st) good bad := by
  cases hnext : Cursor.nextToken o l c with
  | ok t c' =>
    rw [bind_ok (advance_ok hst hnext)]
    exact hok t c' hnext
  | error failure c' =>
    rw [bind_error (advance_error hst hnext)]
    exact herror failure c' hnext

end Ahead

/-- What the parser has read leaves the machine with the given result: it goes on behind it, no
token looked at, with fewer bytes ahead than there was room for; or the parser's failure is the
result. -/
def Resumes {α : Type} (o : Options) (l : Limits) (result : Except Failure Value) (d room : Nat)
    (resume : α → Progress) (r : EStateM.Result Failure Parser.State α) : Prop :=
  Gives r
    (fun a st => ∃ c, st = ⟨c, none, d⟩ ∧ c.rest.length < room ∧
      result = (cut o l c).proceed l (resume a))
    fun failure => result = .error failure

def ResumesValues (o : Options) (l : Limits) (frames : List Frame) (item : ParserM Value) : Prop :=
  ∀ (c : Cursor) (st : Parser.State) (room : Nat), Looks o l c frames.length st → Room o l c room →
    Resumes o l ((cut o l c).run l (.value frames)) frames.length room (deliver · frames) (item st)

theorem room_of_lt {room : Nat} (h : c.rest.length < room) : Room o l c room :=
  ⟨by omega, fun _ _ hnext => (Cursor.length_rest_le_of_nextToken hnext).trans_lt h⟩

section Values

variable {frames : List Frame} {room : Nat}

theorem leadOf_resumes (entries : List s.Entry) (hst : Looks o l c (frames.length + 1) st)
    (hroom : Room o l c room) :
    Gives (leadOf o l s st)
      (fun tag st' => ∃ c', Looks o l c' (frames.length + 1) st' ∧ Room o l c' room ∧
        (cut o l c).run l (.item s entries frames) =
          (cut o l c').run l (.value (⟨s, entries, tag⟩ :: frames)))
      fun failure => (cut o l c).run l (.item s entries frames) = .error failure := by
  cases s with
  | array =>
    apply gives_current hst
    · intro t c' hnext
      by_cases heof : t.kind = .eof
      · obtain ⟨kind, offset⟩ := t
        subst heof
        exact run_cut_eof hnext
      · rw [if_neg heof]
        refine ⟨c, looks_some hnext _, hroom, ?_⟩
        rw [Lexed.cut_token hnext heof]
        rfl
    · intro failure c' hnext
      exact run_cut_error hnext
  | object =>
    apply gives_current hst
    · rintro ⟨kind, offset⟩ c₁ hnext
      cases kind with
      | string key =>
        have hkey : (cut o l c).run l (.item .object entries frames) =
            (cut o l c₁).run l (.colon entries key frames) := run_cut_due hnext nofun rfl
        dsimp only
        rw [bind_ok (discard_ok (advance_ok (looks_some hnext _) hnext)), hkey]
        apply gives_current (looks_none _ _)
        · intro colon c₂ hcolon
          by_cases hkind : colon.kind = .mark .colon
          · rw [if_pos hkind, bind_ok (discard_ok (advance_ok (looks_some hcolon _) hcolon))]
            have hlt := hroom.2 _ _ hnext
            have hle := Cursor.length_rest_le_of_nextToken hcolon
            refine ⟨c₂, looks_none _ _, room_of_lt (by omega), ?_⟩
            exact run_cut_due hcolon (by rw [hkind]; nofun) (if_pos hkind)
          · rw [if_neg hkind]
            by_cases heof : colon.kind = .eof
            · obtain ⟨kind, offset⟩ := colon
              subst heof
              exact run_cut_eof hcolon
            · rw [unexpected_token heof]
              exact run_cut_refused hcolon heof (if_neg hkind)
        · intro failure c₂ hcolon
          exact run_cut_error hcolon
      | eof => exact run_cut_eof hnext
      | mark m => exact run_cut_refused hnext nofun rfl
      | number n => exact run_cut_refused hnext nofun rfl
      | bool b => exact run_cut_refused hnext nofun rfl
      | null => exact run_cut_refused hnext nofun rfl
    · intro failure c' hnext
      exact run_cut_error hnext

/-- The loop over the items, by induction on the bound, which is never used up. -/
theorem series_resumes {item : ParserM Value}
    (hitem : ∀ entries tag, ResumesValues o l (⟨s, entries, tag⟩ :: frames) item) {bound : Nat}
    (entries : List s.Entry) (hst : Looks o l c (frames.length + 1) st)
    (hroom : Room o l c bound) :
    Resumes o l ((cut o l c).run l (.item s entries frames)) (frames.length + 1) bound
      (fun more => deliver (s.build (entries ++ more)) frames) (series o l s item bound st) := by
  induction bound generalizing c st entries with
  | zero => exact absurd hroom.1 (Nat.lt_irrefl 0)
  | succ bound ih =>
    apply (leadOf_resumes entries hst hroom).bind
    rintro tag st₁ ⟨c₁, hst₁, hroom₁, hlead⟩
    rw [hlead]
    apply (hitem entries tag c₁ st₁ _ hst₁ hroom₁).bind
    rintro v st₂ ⟨c₂, rfl, hlt₂, hvalue⟩
    have hbehind : (cut o l c₁).run l (.value (⟨s, entries, tag⟩ :: frames)) =
        (cut o l c₂).run l (.separator s (entries ++ [s.entry tag v]) frames) := hvalue
    rw [hbehind]
    apply gives_advance (looks_none _ _)
    · intro t c₃ hnext
      have hle := Cursor.length_rest_le_of_nextToken hnext
      unfold separated
      by_cases hcomma : t.kind = .mark .comma
      · have hne : t.kind ≠ .eof := by simp [hcomma]
        have hlt := Cursor.length_rest_lt hnext hne
        rw [if_pos hcomma, run_cut_due hnext hne (step_comma hcomma)]
        have hrest := ih (entries ++ [s.entry tag v]) (looks_none c₃ _) (room_of_lt (by omega))
        apply hrest.bind
        rintro more st₄ ⟨c₄, rfl, hlt₄, hmore⟩
        refine ⟨c₄, rfl, by omega, ?_⟩
        simpa using hmore
      · rw [if_neg hcomma]
        by_cases hclosing : t.kind = .mark s.closing
        · have hne : t.kind ≠ .eof := by simp [hclosing]
          rw [if_pos hclosing]
          exact ⟨c₃, rfl, by omega, run_cut_ok hnext hne (step_closing hclosing)⟩
        · rw [if_neg hclosing]
          by_cases heof : t.kind = .eof
          · obtain ⟨kind, offset⟩ := t
            subst heof
            exact run_cut_eof hnext
          · rw [unexpected_token heof]
            exact run_cut_refused hnext heof (step_separator_refused hcomma hclosing)
    · intro failure c₃ hnext
      exact run_cut_error hnext

theorem interior_resumes {item : ParserM Value}
    (hitem : ∀ entries tag, ResumesValues o l (⟨s, entries, tag⟩ :: frames) item)
    (hroom : c.rest.length < room) :
    Resumes o l ((cut o l c).run l (.first s frames)) frames.length room (deliver · frames)
      (interior o l s.closing (s.build []) (fun room => s.build <$> series o l s item room)
        ⟨c, none, frames.length + 1⟩) := by
  apply gives_current (looks_none _ _)
  · intro t c₁ hnext
    have hle := Cursor.length_rest_le_of_nextToken hnext
    by_cases hclosing : t.kind = .mark s.closing
    · rw [if_pos hclosing, bind_ok (discard_ok (advance_ok (looks_some hnext _) hnext))]
      refine ⟨c₁, rfl, by omega, run_cut_ok hnext (by simp [hclosing]) (if_pos hclosing)⟩
    · have hahead : roomAhead ⟨c₁, some t, frames.length + 1⟩ =
          .ok (c₁.rest.length + 1) ⟨c₁, some t, frames.length + 1⟩ := rfl
      have hitems : Room o l c (c₁.rest.length + 1) := by
        refine ⟨Nat.succ_pos _, fun t' c' h' => ?_⟩
        rw [hnext] at h'
        cases h'
        omega
      rw [if_neg hclosing, bind_ok hahead, run_first hnext hclosing]
      apply (series_resumes hitem [] (looks_some hnext _) hitems).map.bind
      rintro _ st₂ ⟨entries, rfl, c₂, rfl, hlt₂, hseries⟩
      exact ⟨c₂, rfl, by omega, hseries⟩
  · intro failure c₁ hnext
    exact run_cut_error hnext

theorem valueWith_resumes {inner : Structure → ParserM Value}
    (hinner : ∀ s offset c', Cursor.nextToken o l c = .ok ⟨.mark s.opening, offset⟩ c' →
      Resumes o l ((cut o l c).run l (.value frames)) frames.length room (deliver · frames)
        (inner s ⟨c', some ⟨.mark s.opening, offset⟩, frames.length⟩))
    (hst : Looks o l c frames.length st) (hroom : Room o l c room) :
    Resumes o l ((cut o l c).run l (.value frames)) frames.length room (deliver · frames)
      (valueWith o l inner st) := by
  apply gives_current hst
  · rintro ⟨kind, offset⟩ c₁ hnext
    have scalar (v : Value) (hkind : kind ≠ .eof)
        (hstep : step l (.value frames) ⟨kind, offset⟩ = .ok (deliver v frames)) :
        Resumes o l ((cut o l c).run l (.value frames)) frames.length room (deliver · frames)
          ((do discard (advance o l); return v : ParserM Value)
            ⟨c₁, some ⟨kind, offset⟩, frames.length⟩) := by
      rw [bind_ok (discard_ok (advance_ok (looks_some hnext _) hnext))]
      exact ⟨c₁, rfl, hroom.2 _ _ hnext, run_cut_ok hnext hkind hstep⟩
    cases kind with
    | string s => exact scalar (.string s) nofun rfl
    | number n => exact scalar (.number n) nofun rfl
    | bool b => exact scalar (.bool b) nofun rfl
    | null => exact scalar .null nofun rfl
    | eof => exact run_cut_eof hnext
    | mark m =>
      cases m with
      | openBrace => exact hinner .object offset c₁ hnext
      | openBracket => exact hinner .array offset c₁ hnext
      | closeBrace => exact run_cut_refused hnext nofun rfl
      | closeBracket => exact run_cut_refused hnext nofun rfl
      | colon => exact run_cut_refused hnext nofun rfl
      | comma => exact run_cut_refused hnext nofun rfl
  · intro failure c₁ hnext
    exact run_cut_error hnext

/-- Nesting beyond the limit ends both in the same way. -/
theorem run_cut_deep {offset : Nat}
    (hnext : Cursor.nextToken o l c = .ok ⟨.mark s.opening, offset⟩ c')
    (hd : l.nestingDepth.val < frames.length + 1) :
    (cut o l c).run l (.value frames) = .error
      ⟨.limitExceeded .nestingDepth (frames.length + 1) l.nestingDepth.val, offset⟩ := by
  apply run_cut_refused hnext nofun
  rw [step, stepValue_opening, push_error hd]

/-- A value, by induction on the levels left, of which there are as many as the limit on nesting
leaves. -/
theorem value_resumes (levels : Nat) (hlevels : l.nestingDepth.val ≤ levels + frames.length) :
    ResumesValues o l frames (value o l levels) := by
  induction levels generalizing frames with
  | zero =>
    intro c st room hst hroom
    refine valueWith_resumes ?_ hst hroom
    intro s offset c' hnext
    have hd : l.nestingDepth.val < frames.length + 1 := by omega
    unfold exhausted
    rw [bind_ok (advance_ok (looks_some hnext _) hnext), bind_error (enter_error hd _)]
    exact run_cut_deep hnext hd
  | succ levels ih =>
    intro c st room hst hroom
    rw [value_succ]
    refine valueWith_resumes ?_ hst hroom
    intro s offset c' hnext
    unfold structured
    by_cases hd : frames.length + 1 ≤ l.nestingDepth.val
    · have hpush : (cut o l c).run l (.value frames) = (cut o l c').run l (.first s frames) := by
        apply run_cut_due hnext nofun
        rw [step, stepValue_opening, push_ok hd]
      rw [bracketed_ok (looks_some hnext _) hnext hd, hpush]
      apply interior_resumes
      · intro entries tag
        exact ih (by rw [List.length_cons]; omega)
      · exact hroom.2 _ _ hnext
    · have hd' : l.nestingDepth.val < frames.length + 1 := by omega
      rw [bracketed_error (looks_some hnext _) hnext hd']
      exact run_cut_deep hnext hd'

theorem ending_closes (v : Value) (c : Cursor) :
    Gives (ending v ⟨c, none, 0⟩) (fun v' _ => (cut o l c).close v = .ok v')
      fun failure => (cut o l c).close v = .error failure := by
  obtain ⟨text, hc⟩ := Cursor.exists_behind c
  obtain ⟨back, rest, hrest, hstop⟩ := exists_gap c.rest
  rw [hrest] at hc
  subst hc
  cases rest with
  | nil =>
    rw [List.append_nil, ending_ok]
    exact Lexed.close_cut_gap v text back
  | cons b tail =>
    rw [ending_trailing text back ((stops_cons _ _ _).1 hstop)]
    exact Lexed.close_cut_cons v text back hstop

end Values

end Parser

/-- On-demand parsing and parsing of the tokens as a list end alike, if the stack holds every
nesting that the limit allows. -/
theorem parseText_eq_parse_ofText {o : Options} {l : Limits} {levels : Nat}
    (hlevels : l.nestingDepth.val ≤ levels) (text : List Byte) :
    parseText o l levels text = (Lexed.ofText o l text).parse l text.length := by
  unfold Lexed.parse
  cases hsize : l.violation? .inputSize text.length with
  | some cause =>
    obtain ⟨bound, hbound, hlt, rfl⟩ := Limits.violation?_eq_some hsize
    rw [parseText_oversize hbound hlt]
  | none =>
    have hresumes : Parser.ResumesValues o l [] (Parser.value o l levels) :=
      Parser.value_resumes levels hlevels
    have hvalue := hresumes (.behind [] text) _ (text.length + 1) (Parser.looks_none _ 0)
      (Parser.room_of_lt (Nat.lt_succ_self _))
    have hwhole : Parser.Gives
        ((Parser.topValue o l levels >>= Parser.ending) ⟨.behind [] text, none, 0⟩)
        (fun v _ => (Lexed.ofText o l text).run l (.value []) = .ok v)
        fun failure => (Lexed.ofText o l text).run l (.value []) = .error failure := by
      apply hvalue.bind
      rintro v st ⟨c, rfl, -, hrest⟩
      rw [Lexed.ofText]
      show Parser.Gives _ (fun v' _ => (Lexed.cut o l (.behind [] text)).run l _ = .ok v')
        fun failure => (Lexed.cut o l (.behind [] text)).run l _ = .error failure
      rw [hrest]
      exact Parser.ending_closes v c
    rw [parseText_within (Limits.violation?_eq_none_iff.1 hsize)]
    cases hresult : (Parser.topValue o l levels >>= Parser.ending) ⟨.behind [] text, none, 0⟩ with
    | ok v st =>
      rw [hresult] at hwhole
      exact hwhole.symm
    | error failure st =>
      rw [hresult] at hwhole
      exact hwhole.symm

end LocatedJson
