import LocatedJson.Proofs.Pushdown.Program

/-! What one token does to the pushdown machine, said once: it leads on and counts its bracket, it
ends the document, or it is refused where it stands. The run over a text takes these steps one
token after the other. -/
namespace LocatedJson

open Grammar Pushdown

def Token.Kind.opens : Token.Kind → Nat
  | .mark .openBrace | .mark .openBracket => 1
  | _ => 0

theorem Token.Kind.opens_le_one (kind : Token.Kind) : kind.opens ≤ 1 := by
  unfold opens
  split <;> omega

def Token.Kind.closes : Token.Kind → Nat
  | .mark .closeBrace | .mark .closeBracket => 1
  | _ => 0

theorem Token.Kind.scan_ne_eof {o : Options} {l : Limits} {b : Byte} {tail : List Byte}
    {kind : Token.Kind} {n : Nat} (h : scan o l (b :: tail) = .ok (kind, n)) : kind ≠ .eof := by
  rcases scan_cases o l b tail with ⟨x, rest, hx, hl, htext, hrest⟩ | ⟨f, hf⟩
  · rw [htext, scan_within hx hl hrest] at h
    cases h
    exact Parser.kind_ne_eof x
  · rw [hf.1] at h
    cases h

namespace Lexed

variable {o : Options} {l : Limits} {c c' : Cursor} {t : Token} {failure : Failure}

theorem cut_error (h : Cursor.nextToken o l c = .error failure c') :
    cut o l c = refused c.skipped.pos failure := by
  rw [cut]
  split <;> simp_all

theorem cut_eof {offset : Nat} (h : Cursor.nextToken o l c = .ok ⟨.eof, offset⟩ c') :
    cut o l c = finish offset := by
  rw [cut]
  split <;> simp_all

theorem cut_token (h : Cursor.nextToken o l c = .ok t c') (ht : t.kind ≠ .eof) :
    cut o l c = token t (cut o l c') := by
  rw [cut]
  split <;> simp_all

theorem start_cut (c : Cursor) : (cut o l c).start = c.skipped.pos := by
  have hnext := Cursor.nextToken_eq_scan o l c
  cases hscan : Token.Kind.scan o l c.skipped.rest with
  | error f =>
    rw [hscan] at hnext
    rw [cut_error hnext]
    rfl
  | ok r =>
    rw [hscan] at hnext
    by_cases heof : r.1 = .eof
    · dsimp only at hnext
      rw [heof] at hnext
      rw [cut_eof hnext]
      rfl
    · rw [cut_token hnext heof]
      rfl

theorem close_cut_gap (v : Value) (text : List Byte) (gap : Gap) :
    (cut o l (.behind text gap.bytes)).close v = .ok v := by
  rw [cut_eof (Cursor.nextToken_eof text gap)]
  rfl

theorem close_cut_cons (v : Value) (text : List Byte) (gap : Gap) {b : Byte} {tail : List Byte}
    (h : Stops Byte.isBlank (b :: tail)) :
    (cut o l (.behind text (gap.bytes ++ b :: tail))).close v =
      .error ⟨.trailingData, (text ++ gap.bytes).length⟩ := by
  have hnext := Cursor.nextToken_eq o l text gap h
  cases hscan : Token.Kind.scan o l (b :: tail) with
  | ok r =>
    rw [hscan] at hnext
    rw [cut_token hnext (Token.Kind.scan_ne_eof hscan)]
    rfl
  | error f =>
    rw [hscan] at hnext
    rw [cut_error hnext, Cursor.skipped_behind text gap h]
    rfl

@[elab_as_elim]
theorem token_induction (o : Options) (l : Limits) {motive : Cursor → Prop}
    (refused : ∀ c failure c', Cursor.nextToken o l c = .error failure c' → motive c)
    (finish : ∀ c offset c', Cursor.nextToken o l c = .ok ⟨.eof, offset⟩ c' → motive c)
    (token : ∀ c t c', Cursor.nextToken o l c = .ok t c' → t.kind ≠ .eof → motive c' → motive c)
    (c : Cursor) : motive c := by
  induction c using cut.induct o l with
  | case1 c failure c' h => exact refused c failure c' h
  | case2 c t c' h heof =>
    obtain ⟨kind, offset⟩ := t
    cases heof
    exact finish c offset c' h
  | case3 c t c' h heof ih => exact token c t c' h heof ih

def proceed (l : Limits) (rest : Lexed) : Progress → Except Failure Value
  | .due st => rest.run l st
  | .done v => rest.close v

theorem run_token_ok {st : State} {p : Progress} (h : step l st t = .ok p) (rest : Lexed) :
    (token t rest).run l st = rest.proceed l p := by
  rw [run, h]
  cases p <;> rfl

theorem run_token_error {st : State} (h : step l st t = .error failure) (rest : Lexed) :
    (token t rest).run l st = .error failure := by
  rw [run, h]

section Cut

variable {st : State}

theorem run_cut_error (h : Cursor.nextToken o l c = .error failure c') :
    (cut o l c).run l st = .error failure := by
  rw [cut_error h, run]

theorem run_cut_eof {offset : Nat} (h : Cursor.nextToken o l c = .ok ⟨.eof, offset⟩ c') :
    (cut o l c).run l st = .error ⟨st.incomplete, offset⟩ := by
  rw [cut_eof h, run]

theorem run_cut_ok (h : Cursor.nextToken o l c = .ok t c') (ht : t.kind ≠ .eof) {p : Progress}
    (hstep : step l st t = .ok p) : (cut o l c).run l st = (cut o l c').proceed l p := by
  rw [cut_token h ht, run_token_ok hstep]

theorem run_cut_due (h : Cursor.nextToken o l c = .ok t c') (ht : t.kind ≠ .eof) {st' : State}
    (hstep : step l st t = .ok (.due st')) : (cut o l c).run l st = (cut o l c').run l st' :=
  run_cut_ok h ht hstep

theorem run_cut_refused (h : Cursor.nextToken o l c = .ok t c') (ht : t.kind ≠ .eof)
    (hstep : step l st t = .error failure) : (cut o l c).run l st = .error failure := by
  rw [cut_token h ht, run_token_error hstep]

end Cut

/-- Behind an opening bracket an item is due, unless the bracket is closed at once. -/
theorem run_first {s : Structure} {frames : List Frame}
    (h : Cursor.nextToken o l c = .ok t c') (ht : t.kind ≠ .mark s.closing) :
    (cut o l c).run l (.first s frames) = (cut o l c).run l (.item s [] frames) := by
  by_cases heof : t.kind = .eof
  · obtain ⟨kind, offset⟩ := t
    subst heof
    rw [run_cut_eof h, run_cut_eof h]
    rfl
  · rw [cut_token h heof]
    simp only [run, step, if_neg ht]

end Lexed

namespace Pushdown

variable {l : Limits} {s : Structure} {frames : List Frame} {offset : Nat}

theorem push_ok (h : frames.length + 1 ≤ l.nestingDepth.val) :
    push l s frames offset = .ok (.due (.first s frames)) := by
  have hnone : l.violation? .nestingDepth (frames.length + 1) = none := by
    rw [Limits.violation?_eq_none_iff]
    rintro bound ⟨⟩
    exact h
  rw [push, hnone]

theorem push_error (h : l.nestingDepth.val < frames.length + 1) :
    push l s frames offset = .error
      ⟨.limitExceeded .nestingDepth (frames.length + 1) l.nestingDepth.val, offset⟩ := by
  rw [push, Limits.violation?_of_lt rfl h]

theorem stepValue_opening :
    stepValue l frames ⟨.mark s.opening, offset⟩ = push l s frames offset := by
  cases s <;> rfl

section Separator

variable {entries : List s.Entry} {t : Token}

theorem step_comma (h : t.kind = .mark .comma) :
    step l (.separator s entries frames) t = .ok (.due (.item s entries frames)) := if_pos h

theorem step_closing (h : t.kind = .mark s.closing) :
    step l (.separator s entries frames) t = .ok (deliver (s.build entries) frames) := by
  have hcomma : ¬ t.kind = .mark .comma := by
    rw [h]
    cases s <;> decide
  simp only [step, if_neg hcomma, if_pos h]

theorem step_separator_refused (hcomma : ¬ t.kind = .mark .comma)
    (hclosing : ¬ t.kind = .mark s.closing) :
    step l (.separator s entries frames) t = refuse (Parser.separatorOf s) t := by
  simp only [step, if_neg hcomma, if_neg hclosing]

end Separator

/-- What a token does where `depth` structures are open. -/
inductive Moves (l : Limits) (depth : Nat) (t : Token) : Except Failure Progress → Prop where
  | due {st : State} (hdepth : st.depth + t.kind.closes = depth + t.kind.opens)
      (hopen : t.kind.opens = 0 ∨ depth < l.nestingDepth.val) : Moves l depth t (.ok (.due st))
  | done {v : Value} (hopen : t.kind.opens = 0) : Moves l depth t (.ok (.done v))
  | refused {cause : Cause} (hcause : cause.kind = .grammar) :
      Moves l depth t (.error ⟨cause, t.offset⟩)
  | deep {s : Structure} (hkind : t.kind = .mark s.opening) (hdeep : l.nestingDepth.val ≤ depth) :
      Moves l depth t
        (.error ⟨.limitExceeded .nestingDepth (depth + 1) l.nestingDepth.val, t.offset⟩)

theorem deliver_moves {t : Token} {depth : Nat} (hopen : t.kind.opens = 0)
    (hdepth : depth = frames.length + t.kind.closes) (v : Value) :
    Moves l depth t (.ok (deliver v frames)) := by
  cases frames with
  | nil => exact .done hopen
  | cons f frames =>
    apply Moves.due _ (.inl hopen)
    simp [State.depth, hdepth, hopen]

theorem refuse_moves (depth : Nat) (wanted : Wanted) (t : Token) :
    Moves l depth t (refuse wanted t) := .refused rfl

theorem push_moves {t : Token} (hkind : t.kind = .mark s.opening) :
    Moves l frames.length t (push l s frames t.offset) := by
  have hbrackets : t.kind.opens = 1 ∧ t.kind.closes = 0 := by
    rw [hkind]
    cases s <;> exact ⟨rfl, rfl⟩
  by_cases hd : frames.length + 1 ≤ l.nestingDepth.val
  · rw [push_ok hd]
    apply Moves.due _ (.inr hd)
    simp [State.depth, hbrackets]
  · rw [push_error (by omega)]
    exact .deep hkind (by omega)

theorem stepValue_moves (frames : List Frame) (t : Token) :
    Moves l frames.length t (stepValue l frames t) := by
  obtain ⟨kind, offset⟩ := t
  cases kind with
  | string s => apply deliver_moves <;> rfl
  | number n => apply deliver_moves <;> rfl
  | bool b => apply deliver_moves <;> rfl
  | null => apply deliver_moves <;> rfl
  | eof => exact refuse_moves _ _ _
  | mark m =>
    cases m with
    | openBrace => exact push_moves (s := .object) rfl
    | openBracket => exact push_moves (s := .array) rfl
    | closeBrace => exact refuse_moves _ _ _
    | closeBracket => exact refuse_moves _ _ _
    | colon => exact refuse_moves _ _ _
    | comma => exact refuse_moves _ _ _

theorem stepItem_moves (entries : List s.Entry) (frames : List Frame) (t : Token) :
    Moves l (frames.length + 1) t (stepItem l s entries frames t) := by
  cases s with
  | array => exact stepValue_moves (⟨.array, entries, ()⟩ :: frames) t
  | object =>
    obtain ⟨kind, offset⟩ := t
    cases kind with
    | string key => exact .due rfl (.inl rfl)
    | _ => exact refuse_moves _ _ _

theorem closing_moves {t : Token} (hkind : t.kind = .mark s.closing) (v : Value) :
    Moves l (frames.length + 1) t (.ok (deliver v frames)) := by
  have hbrackets : t.kind.opens = 0 ∧ t.kind.closes = 1 := by
    rw [hkind]
    cases s <;> exact ⟨rfl, rfl⟩
  apply deliver_moves hbrackets.1
  rw [hbrackets.2]

theorem step_moves (st : State) (t : Token) : Moves l st.depth t (step l st t) := by
  cases st with
  | value frames => exact stepValue_moves frames t
  | first s frames =>
    rw [step]
    split
    · next hkind => exact closing_moves hkind _
    · exact stepItem_moves [] frames t
  | item s entries frames => exact stepItem_moves entries frames t
  | colon members key frames =>
    rw [step]
    split
    · next hkind =>
      apply Moves.due
      · rw [hkind]
        rfl
      · exact .inl (by rw [hkind]; rfl)
    · exact refuse_moves _ _ _
  | separator s entries frames =>
    rw [step]
    split
    · next hkind =>
      apply Moves.due
      · rw [hkind]
        rfl
      · exact .inl (by rw [hkind]; rfl)
    · split
      · next hkind => exact closing_moves hkind _
      · exact refuse_moves _ _ _

theorem offset_of_step {st : State} {t : Token} {failure : Failure}
    (h : step l st t = .error failure) : failure.offset = t.offset := by
  have hmoves := step_moves (l := l) st t
  rw [h] at hmoves
  cases hmoves with
  | refused hcause => rfl
  | deep hkind hdeep => rfl

end Pushdown

namespace Lexed

variable {o : Options} {l : Limits}

theorem offset_of_close {v : Value} {rest : Lexed} {failure : Failure}
    (h : rest.close v = .error failure) : failure = ⟨.trailingData, rest.start⟩ := by
  cases rest with
  | finish offset => cases h
  | refused start f => exact (Except.error.inj h).symm
  | token t rest => exact (Except.error.inj h).symm

theorem offset_le_start_cut {c c' : Cursor} {t : Token}
    (h : Cursor.nextToken o l c = .ok t c') : t.offset ≤ (cut o l c').start := by
  rw [start_cut]
  have hnext := Cursor.nextToken_eq_scan o l c
  rw [h] at hnext
  split at hnext
  · cases hnext
    exact Nat.le_add_right_of_le (Nat.le_add_right _ _)
  · cases hnext

/-- A run fails at no byte before its first token. -/
theorem start_le_of_run {c : Cursor} {st : State} {failure : Failure}
    (h : (cut o l c).run l st = .error failure) : (cut o l c).start ≤ failure.offset := by
  induction c using token_induction o l generalizing st with
  | refused c refusal c' hnext =>
    rw [run_cut_error hnext] at h
    cases h
    rw [start_cut]
    rw [Cursor.nextToken_eq_scan] at hnext
    split at hnext
    · cases hnext
    · cases hnext
      exact Nat.le_add_right _ _
  | finish c offset c' hnext =>
    rw [run_cut_eof hnext] at h
    cases h
    rw [cut_eof hnext]
    exact Nat.le_refl _
  | token c t c' hnext heof ih =>
    have hle := offset_le_start_cut hnext
    rw [cut_token hnext heof] at h ⊢
    rw [run] at h
    split at h
    · next refusal hstep =>
      cases h
      exact (offset_of_step hstep).ge
    · exact hle.trans (ih h)
    · rw [offset_of_close h]
      exact hle

end Lexed

end LocatedJson
