import LocatedJson.Proofs.Grammar.Follower
import LocatedJson.Proofs.Lexing.Causes
import LocatedJson.Proofs.Parsing.Whole

/-! Where errors point. The text before a refused token can be completed to a document; whether
the text before the reported byte can be depends on the token's first byte. -/
namespace LocatedJson

open LocatedJson.Grammar LocatedJson.Parser

namespace Grammar.Place

theorem endsBefore_front {place : Place} {b : Byte} {rest : List Byte}
    (h : place.EndsBefore (b :: rest)) : place.EndsBefore [b] := by
  have hhead (back : Gap) : (back.bytes ++ [b]).head? = (back.bytes ++ b :: rest).head? := by
    cases back.bytes <;> rfl
  match place with
  | .after k front (.scalar (.decimal n)) back =>
    intro b' hb'
    rw [hhead back] at hb'
    exact h b' hb'
  | .after k front (.scalar (.word _)) back => trivial
  | .after k front (.scalar (.special _)) back => trivial
  | .after k front (.scalar (.string _)) back => trivial
  | .after k front (.hollow _ _) back => trivial
  | .after k front (.filled _ _) back => trivial
  | .value _ _ => trivial
  | .key _ _ => trivial
  | .colon _ _ _ _ => trivial

end Grammar.Place

/-- The offset of a failure, as seen from the start of the refused token. -/
structure Pinpoints (o : Options) (l : Limits) (text : List Byte) (failure : Failure)
    (start : Nat) : Prop where
  le : start ≤ failure.offset
  offset_le : failure.offset ≤ text.length
  opens_start : Opens o .free (text.take start)
  scanned : failure.offset = start ∨ ∃ f, Token.Kind.scan o l (text.drop start) = .error f ∧
    failure = ⟨f.cause, start + f.offset⟩
  opens_iff : Opens o .free (text.take failure.offset) ↔
    failure.offset = start ∨ Opens o .free (text.take (start + 1))

theorem Pinpoints.of_place {o : Options} {l : Limits} {place : Place} {text rest : List Byte}
    (h : place.Reached o text rest) (cause : Cause) :
    Pinpoints o l text ⟨cause, place.text.length⟩ place.text.length where
  le := Nat.le_refl _
  offset_le := by rw [h.text_eq, List.length_append]; exact Nat.le_add_right _ _
  opens_start := by
    rw [h.text_eq, List.take_left]
    exact Place.opens_text h.admitted.free
  scanned := .inl rfl
  opens_iff := by
    rw [h.text_eq, List.take_left]
    exact iff_of_true (Place.opens_text h.admitted.free) (.inl rfl)

theorem Pinpoints.of_lexeme {o : Options} {l : Limits} {place : Place} {text rest : List Byte}
    (h : place.Reached o text rest) {f : Fault} (hf : Token.Kind.RefusedWith o l rest f) :
    Pinpoints o l text ⟨f.cause, place.text.length + f.offset⟩ place.text.length := by
  obtain ⟨hscan, x, front, tail, hx, rfl, hoffset, hfront⟩ := hf
  have hopens : Opens o .free place.text := Place.opens_text h.admitted.free
  have htake : text.take (place.text.length + f.offset) = place.text ++ front := by
    rw [h.text_eq, hoffset, List.take_length_add_append, List.take_left]
  refine ⟨Nat.le_add_right _ _, ?_, ?_, .inr ⟨f, ?_, rfl⟩, ?_⟩
  · rw [h.text_eq, hoffset, List.length_append, List.length_append]
    exact Nat.add_le_add_left (Nat.le_add_right _ _) _
  · rw [h.text_eq, List.take_left]
    exact hopens
  · rw [h.text_eq, List.drop_left, hscan]
  · dsimp only
    rw [htake]
    cases front with
    | nil =>
      rw [List.append_nil, hoffset]
      exact iff_of_true hopens (.inl rfl)
    | cons b front =>
      have hone : text.take (place.text.length + 1) = place.text ++ [b] := by
        rw [h.text_eq, List.take_length_add_append]
        rfl
      rw [hone]
      constructor
      · intro hlong
        refine .inr (hlong.of_front ?_)
        exact (List.prefix_append_right_inj _).2 (List.prefix_append [b] front)
      · rintro (hzero | hone)
        · rw [hoffset, List.length_cons] at hzero
          omega
        · -- the first byte is due, so the literal it leads is
          have hexpects : place.Expects (.scalar x) := by
            by_contra hnot
            obtain ⟨more, hmore⟩ := hfront
            exact Place.not_opens h.admitted.free hnot hmore.symm
              (Place.endsBefore_front h.ends) hone
          have hscalar := Place.opens_scalar h.admitted.free hx hexpects
          exact hscalar.of_front ((List.prefix_append_right_inj _).2 hfront)

/-- No document goes on with the byte at an offset. -/
def DeadAt (o : Options) (text : List Byte) (offset : Nat) : Prop :=
  ¬ Opens o .paired (text.take (offset + 1))

theorem deadAt_of_reached {o : Options} {place : Place} {text rest : List Byte} {b : Byte}
    (h : place.Reached o text (b :: rest)) (hdead : ¬ Opens o .free (place.text ++ [b])) :
    DeadAt o text place.text.length := by
  intro hopens
  rw [h.text_eq, List.take_length_add_append] at hopens
  exact hdead hopens.free

namespace Parser

variable {o : Options} {l : Limits} {levels : Nat} {text : List Byte} {failure : Failure}

theorem Refused.pinpoints (h : Refused o l levels text failure)
    (hstack : ∀ n, failure.cause ≠ .recursionExhausted n) :
    ∃ start, Pinpoints o l text failure start := by
  cases h with
  | lexeme h hf => exact ⟨_, .of_lexeme h hf⟩
  | token wanted h hx => exact ⟨_, .of_place h _⟩
  | ending h hcause => exact ⟨_, .of_place h _⟩
  | deep h hn => exact ⟨_, .of_place h _⟩
  | exhausted n h hlevels => exact absurd rfl (hstack n)

theorem Refused.ne_recursionExhausted (h : Refused o l levels text failure)
    (hlevels : l.nestingDepth.val ≤ levels) (n : Nat) : failure.cause ≠ .recursionExhausted n := by
  cases h with
  | @lexeme place rest f h hf =>
    intro hcause
    have hlexical : f.cause.isLexical = true := Token.Kind.lexical_scan o l _ _ hf.1
    rw [show f.cause = .recursionExhausted n from hcause] at hlexical
    cases hlexical
  | token wanted h hx => nofun
  | ending h hcause => rcases hcause with rfl | ⟨s, rfl⟩ <;> nofun
  | deep h hn => nofun
  | exhausted k h hlt => omega

theorem Refused.deadAt (h : Refused o l levels text failure)
    (hcause : failure.cause.concernsTokens = true) (hoffset : failure.offset < text.length) :
    DeadAt o text failure.offset := by
  cases h with
  | lexeme h hf =>
    rw [Cause.concernsTokens_of_isLexical (Token.Kind.lexical_scan o l _ _ hf.1)] at hcause
    cases hcause
  | @token place x rest wanted h hx =>
    obtain ⟨b, tail, htext⟩ := Token.Kind.exists_text_eq_cons x
    rw [htext, List.cons_append] at h
    exact deadAt_of_reached h
      (Place.not_opens h.admitted.free hx htext (Place.endsBefore_front h.ends))
  | ending h _ =>
    rw [h.text_eq, List.append_nil] at hoffset
    exact absurd hoffset (Nat.lt_irrefl _)
  | deep h hn => cases hcause
  | exhausted n h hlevels => cases hcause

theorem Trailing.pinpoints (h : Trailing o text failure) :
    ∃ start, Pinpoints o l text failure start := by
  obtain ⟨front, p, back, b, rest, hreached, -, rfl⟩ := h
  exact ⟨_, .of_place hreached _⟩

theorem Trailing.deadAt (h : Trailing o text failure) : DeadAt o text failure.offset := by
  obtain ⟨front, p, back, b, rest, hreached, hblank, rfl⟩ := h
  exact deadAt_of_reached hreached (Place.not_opens_of_refused hreached.admitted.free hblank rfl
    (Place.endsBefore_front hreached.ends))

end Parser

theorem Pinpoints.of_zero (o : Options) (l : Limits) (text : List Byte) (cause : Cause) :
    Pinpoints o l text ⟨cause, 0⟩ 0 := by
  have reached : (Place.value .root Gap.none).Reached o text text := ⟨nofun, trivial, rfl⟩
  exact .of_place reached cause

/-- The text before the refused token begins a document, and so does the text before the reported
byte exactly if it is that token's first byte or the token's first byte could stand there. A
complaint of the parser is never late: no document goes on with the byte it points at. -/
theorem Source.parse_failure_pinpoints {s : Source} {c : Contents} (hc : s.contents = some c)
    {config : Config} {failure : Failure} {report : Except DisplayFault Report}
    (h : s.parse levels config = .error (.rejected failure report))
    (hstack : ∀ n, failure.cause ≠ .recursionExhausted n) :
    (∃ start, Pinpoints config.options config.limits c.text failure start) ∧
      (failure.cause.concernsTokens = true → failure.offset < c.size →
        DeadAt config.options c.text failure.offset) := by
  obtain ⟨hparse, -⟩ := (Source.parse_eq_error hc).1 h
  rcases parseText_error_cases hparse with ⟨bound, -, -, rfl⟩ | hrefused | htrailing
  · exact ⟨⟨0, .of_zero _ _ _ _⟩, nofun⟩
  · refine ⟨hrefused.pinpoints hstack, fun hcause hoffset => ?_⟩
    rw [← Contents.length_text] at hoffset
    exact hrefused.deadAt hcause hoffset
  · exact ⟨htrailing.pinpoints, fun _ _ => htrailing.deadAt⟩

def strayString : List Byte := [0x5b, 0x31, 0x20, 0x22, 0x61, 0x62, 0x63]

theorem parse_strayString (report : Except DisplayFault Report)
    (h : report = Report.ofFailure (.ofBytes "stray.json" strayString) {}
      ⟨.unterminatedString, 7⟩) :
    (Source.ofBytes "stray.json" strayString).parse 256 .strict =
      .error (.rejected ⟨.unterminatedString, 7⟩ report) :=
  (Source.parse_eq_error rfl).2 ⟨by cbv, h⟩

theorem Source.parse_strayString_pinpoints :
    ∃ start, Pinpoints .strict {} (Contents.ofBytes strayString).text ⟨.unterminatedString, 7⟩
      start :=
  (Source.parse_failure_pinpoints rfl (parse_strayString _ rfl) nofun).1

/-- The reported byte is the end of the text, but no document begins with the text before it. -/
theorem Source.parse_strayString_late :
    (∃ report, (Source.ofBytes "stray.json" strayString).parse 256 .strict =
      .error (.rejected ⟨.unterminatedString, 7⟩ report)) ∧
    ¬ Opens .strict .free (strayString.take 7) :=
  ⟨⟨_, parse_strayString _ rfl⟩, Follower.not_opens_of_reads (by decide)⟩

end LocatedJson
