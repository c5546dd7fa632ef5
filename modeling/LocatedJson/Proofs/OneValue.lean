import LocatedJson.Proofs.Coverage
import LocatedJson.Proofs.Parsing.Nesting

/-! One value at a time. However a parser was used before, as long as nothing has failed, to read a
value takes the bytes of that value and no other, holds no token behind it and leaves the count of
open structures as it was. -/
namespace LocatedJson

open Grammar

namespace Grammar

def Solid (text : List Byte) : Prop := ∃ b, text.getLast? = some b ∧ b.isBlank = false

theorem Solid.append {back : List Byte} (h : Solid back) (front : List Byte) :
    Solid (front ++ back) := by
  obtain ⟨b, hlast, hb⟩ := h
  exact ⟨b, by rw [List.getLast?_append, hlast, Option.some_or], hb⟩

theorem Solid.cons {back : List Byte} (h : Solid back) (b : Byte) : Solid (b :: back) :=
  h.append [b]

theorem solid_singleton {b : Byte} (h : b.isBlank = false) : Solid [b] := ⟨b, rfl, h⟩

theorem Digits.solid (d : Digits) : Solid d.bytes := by
  refine ⟨d.bytes.getLast d.ne_nil, List.getLast?_eq_some_getLast d.ne_nil, ?_⟩
  have hdigit := d.digit _ (List.getLast_mem d.ne_nil)
  simp only [Byte.isDigit, Bool.and_eq_true, decide_eq_true_eq] at hdigit
  simp only [Byte.isBlank, Bool.or_eq_false_iff, beq_eq_false_iff_ne]
  generalize d.bytes.getLast d.ne_nil = b at hdigit
  refine ⟨⟨⟨?_, ?_⟩, ?_⟩, ?_⟩ <;> (rintro rfl; exact absurd hdigit.1 (by decide))

theorem Decimal.solid (n : Decimal) : Solid n.text := by
  obtain ⟨sign, whole, fraction, exponent, mantissa⟩ := n
  refine Solid.append ?_ sign.text
  match exponent, fraction, whole with
  | some e, _, whole => exact (((e.digits.solid.append _).cons _).append _).append whole.text
  | none, some d, whole =>
    rw [Decimal.exponentText, List.append_nil]
    exact (d.solid.cons _).append whole.text
  | none, none, .absent => exact absurd rfl (mantissa rfl)
  | none, none, .zero => exact solid_singleton (by decide)
  | none, none, .positive digits _ =>
    show Solid (digits.bytes ++ ([] ++ []))
    rw [List.append_nil, List.append_nil]
    exact digits.solid

theorem Phrase.solid (p : Phrase .value) : Solid p.text := by
  have closing (s : Structure) (front : List Byte) : Solid (front ++ [s.closing.byte]) := by
    refine (solid_singleton ?_).append front
    cases s <;> decide
  match p with
  | .scalar (.word (.bool true)) => exact ⟨0x65, by decide, by decide⟩
  | .scalar (.word (.bool false)) => exact ⟨0x65, by decide, by decide⟩
  | .scalar (.word .null) => exact ⟨0x6c, by decide, by decide⟩
  | .scalar (.special .infinity) => exact ⟨0x79, by decide, by decide⟩
  | .scalar (.special .negativeInfinity) => exact ⟨0x79, by decide, by decide⟩
  | .scalar (.special .nan) => exact ⟨0x4e, by decide, by decide⟩
  | .scalar (.decimal n) => exact n.solid
  | .scalar (.string q) =>
    refine ((solid_singleton ?_).append _).cons _
    cases q.quote <;> decide
  | .hollow s gap => exact (closing s gap.bytes).cons _
  | .filled s items => exact (closing s items.text).cons _

theorem Phrase.stops_isBlank (p : Phrase .value) (rest : List Byte) :
    Stops Byte.isBlank (p.text ++ rest) := by
  cases p with
  | scalar x => exact Token.Kind.stops_isBlank_lexeme (.scalar x) rest
  | hollow s gap => exact Token.Kind.stops_isBlank_lexeme (.mark s.opening) _
  | filled s items => exact Token.Kind.stops_isBlank_lexeme (.mark s.opening) _

theorem exists_context (o : Options) (n : Nat) :
    ∃ k : Context .value, k.text.length = n ∧ k.Admitted o .paired := by
  cases n with
  | zero => exact ⟨.root, rfl, nofun⟩
  | succ n =>
    have hblank : ∀ b ∈ List.replicate n Byte.space, b ∈ blanks := by
      intro b hb
      rw [List.eq_of_mem_replicate hb]
      exact List.mem_cons_self
    refine ⟨.entry (.inside .root ⟨_, hblank⟩ .array) .element, ?_, nofun⟩
    simp [Context.text, Lead.text]

theorem Phrase.Within.resized {l : Limits} {p : Phrase .value} (h : p.Within l)
    (size : Option Positive) : p.Within { l with inputSize := size } := by
  intro x hx
  match x, h x hx with
  | .word _, _ => trivial
  | .special _, _ => trivial
  | .decimal _, h => exact h
  | .string _, h => exact h

end Grammar

namespace Cursor

variable {o : Options} {l : Limits} {text : List Byte} {p : Nat} {c c' : Cursor} {t : Token}

theorem offset_of_nextToken (h : nextToken o l c = .ok t c') : t.offset = c.skipped.pos := by
  rw [nextToken_eq_scan] at h
  cases hscan : Token.Kind.scan o l c.skipped.rest with
  | ok found =>
    rw [hscan] at h
    cases h
    rfl
  | error f =>
    rw [hscan] at h
    cases h

theorem exists_nextToken_atOffset (hp : p ≤ text.length)
    (h : nextToken o l (atOffset text p) = .ok t c') : ∃ q ≤ text.length, c' = atOffset text q := by
  obtain ⟨q, -, hq, hbehind⟩ := exists_behindToken o l hp
  exact ⟨q, hq, (behindToken_of_ok h).symm.trans hbehind⟩

theorem Consumes.exists_atOffset {ts : List Token} (h : Consumes o l (atOffset text p) ts c')
    (hp : p ≤ text.length) : ∃ q ≤ text.length, c' = atOffset text q := by
  generalize hc : atOffset text p = c at h
  induction h generalizing p with
  | nil => exact ⟨p, hp, hc.symm⟩
  | cons hnext hrest ih =>
    subst hc
    obtain ⟨q, hq, rfl⟩ := exists_nextToken_atOffset hp hnext
    exact ih hq rfl

end Cursor

namespace Parser

variable {o : Options} {l : Limits} {levels : Nat} {text : List Byte} {s s' : State} {v : Value}

/-- The states that a parser comes to without a failure: by its own calls, by setting the count of
open structures, and by moving the lexer while no token is held. -/
inductive Unfailed (o : Options) (l : Limits) (text : List Byte) : State → Prop where
  | start : Unfailed o l text (.start text)
  | count {s : State} (h : Unfailed o l text s) (n : Nat) : Unfailed o l text { s with depth := n }
  | seek {s : State} (h : Unfailed o l text s) (hahead : s.ahead = none) {p : Nat}
      (hp : p ≤ text.length) : Unfailed o l text { s with toCursor := .atOffset text p }
  | current {s s' : State} {t : Token} (h : Unfailed o l text s)
      (hcall : Parser.current o l s = .ok t s') : Unfailed o l text s'
  | advance {s s' : State} {t : Token} (h : Unfailed o l text s)
      (hcall : Parser.advance o l s = .ok t s') : Unfailed o l text s'
  | value {s s' : State} {v : Value} {levels : Nat} (h : Unfailed o l text s)
      (hcall : topValue o l levels s = .ok v s') : Unfailed o l text s'
  | structured {s s' : State} {v : Value} {levels : Nat} (h : Unfailed o l text s)
      (kind : Structure) (hcall : topStructure o l levels kind s = .ok v s') : Unfailed o l text s'
  | document {s s' : State} {v : Value} {levels : Nat} (h : Unfailed o l text s)
      (hcall : Parser.document o l levels text.length s = .ok v s') : Unfailed o l text s'

/-- The state is in step with the text: it stands somewhere in it, its token read or not. -/
def InStep (o : Options) (l : Limits) (text : List Byte) (s : State) : Prop :=
  ∃ p ≤ text.length, Looks o l (.atOffset text p) s.depth s

theorem Looks.recount {c : Cursor} {d : Nat} (h : Looks o l c d s) (n : Nat) :
    Looks o l c n { s with depth := n } := by
  rcases h with rfl | ⟨t, c', hnext, rfl⟩
  · exact looks_none c n
  · exact looks_some hnext n

theorem inStep_atOffset {p : Nat} (hp : p ≤ text.length) (d : Nat) :
    InStep o l text ⟨.atOffset text p, none, d⟩ :=
  ⟨p, hp, looks_none _ d⟩

theorem Looks.current {c : Cursor} {d : Nat} {t : Token} (h : Looks o l c d s)
    (hcall : Parser.current o l s = .ok t s') : ∃ c', Cursor.nextToken o l c = .ok t c' ∧
      s' = ⟨c', some t, d⟩ := by
  cases hnext : Cursor.nextToken o l c with
  | ok t' c' =>
    rw [current_ok h hnext] at hcall
    cases hcall
    exact ⟨c', rfl, rfl⟩
  | error failure c' =>
    rw [current_error h hnext] at hcall
    cases hcall

theorem Looks.advance {c : Cursor} {d : Nat} {t : Token} (h : Looks o l c d s)
    (hcall : Parser.advance o l s = .ok t s') : ∃ c', Cursor.nextToken o l c = .ok t c' ∧
      s' = ⟨c', none, d⟩ := by
  cases hnext : Cursor.nextToken o l c with
  | ok t' c' =>
    rw [advance_ok h hnext] at hcall
    cases hcall
    exact ⟨c', rfl, rfl⟩
  | error failure c' =>
    rw [advance_error h hnext] at hcall
    cases hcall

theorem InStep.value (h : InStep o l text s)
    (hcall : Parser.value o l levels s = .ok v s') :
    ∃ q ≤ text.length, s' = ⟨.atOffset text q, none, s.depth⟩ := by
  obtain ⟨p, hp, hlooks⟩ := h
  have hcounts := value_counts o l levels s.depth _ s hlooks
  rw [hcall] at hcounts
  obtain ⟨ts, c', hts, -, -, rfl⟩ := hcounts
  obtain ⟨q, hq, rfl⟩ := hts.exists_atOffset hp
  exact ⟨q, hq, rfl⟩

theorem topStructure_eq (kind : Structure) :
    topStructure o l levels kind = Parser.structured o l kind (Parser.value o l (levels - 1)) := by
  cases kind with
  | array => exact array_eq_structured o l _
  | object => exact object_eq_structured o l _

theorem InStep.structured (h : InStep o l text s) {kind : Structure}
    (hcall : topStructure o l levels kind s = .ok v s') :
    ∃ q ≤ text.length, s' = ⟨.atOffset text q, none, s.depth⟩ := by
  obtain ⟨p, hp, hlooks⟩ := h
  rw [topStructure_eq, Parser.structured] at hcall
  cases hnext : Cursor.nextToken o l (.atOffset text p) with
  | error failure c =>
    unfold bracketed at hcall
    rw [bind_error (advance_error hlooks hnext)] at hcall
    cases hcall
  | ok t c =>
    by_cases hd : s.depth + 1 ≤ l.nestingDepth.val
    · have hitem := value_counts o l (levels - 1) (s.depth + 1)
      have hinterior := interior_counts (s := kind) hitem c
      rw [bracketed_ok hlooks hnext hd] at hcall
      rw [hcall] at hinterior
      obtain ⟨ts, c', hts, -, rfl⟩ := hinterior
      obtain ⟨q, hq, rfl⟩ := (Cursor.Consumes.cons hnext hts).exists_atOffset hp
      exact ⟨q, hq, rfl⟩
    · rw [bracketed_error hlooks hnext (Nat.lt_of_not_le hd)] at hcall
      cases hcall

theorem checkLimit_unchanged {measure : Measure} {n offset : Nat}
    (h : checkLimit l measure n offset s = .ok () s') : s' = s := by
  cases hcause : l.violation? measure n with
  | some cause =>
    rw [checkLimit, hcause] at h
    cases h
  | none =>
    rw [checkLimit, hcause] at h
    cases h
    rfl

theorem InStep.document (h : InStep o l text s) {size : Nat}
    (hcall : Parser.document o l levels size s = .ok v s') :
    ∃ q ≤ text.length, s' = ⟨.atOffset text q, none, 0⟩ := by
  obtain ⟨p, hp, hlooks⟩ := h
  have hreset : reset s = .ok () { s with depth := 0 } := rfl
  have hstep : InStep o l text { s with depth := 0 } := ⟨p, hp, hlooks.recount 0⟩
  unfold Parser.document at hcall
  rw [bind_ok hreset] at hcall
  obtain ⟨_, st, hcheck, hcall⟩ := exists_of_bind_ok hcall
  obtain rfl := checkLimit_unchanged hcheck
  obtain ⟨v', st', hvalue, hcall⟩ := exists_of_bind_ok hcall
  obtain ⟨q, hq, rfl⟩ := hstep.value hvalue
  obtain ⟨q', -, hq', hskipped⟩ := Cursor.exists_skipped_atOffset hq
  have hskip : atCursor Cursor.skipBlanks ⟨.atOffset text q, none, 0⟩ =
      .ok () ⟨.atOffset text q', none, 0⟩ := by
    rw [← hskipped]
    rfl
  rw [bind_ok hskip] at hcall
  obtain ⟨st, st', hget, hcall⟩ := exists_of_bind_ok hcall
  cases hget
  dsimp only at hcall
  split at hcall
  · cases hcall
    exact ⟨q', hq', rfl⟩
  · cases hcall

theorem Unfailed.inStep (h : Unfailed o l text s) : InStep o l text s := by
  induction h with
  | start => exact inStep_atOffset (Nat.zero_le _) 0
  | count _ n ih =>
    obtain ⟨p, hp, hlooks⟩ := ih
    exact ⟨p, hp, hlooks.recount n⟩
  | @seek s _ hahead p hp ih =>
    obtain ⟨c, ahead, d⟩ := s
    subst hahead
    exact inStep_atOffset hp d
  | current _ hcall ih =>
    obtain ⟨p, hp, hlooks⟩ := ih
    obtain ⟨c', hnext, rfl⟩ := hlooks.current hcall
    exact ⟨p, hp, looks_some hnext _⟩
  | advance _ hcall ih =>
    obtain ⟨p, hp, hlooks⟩ := ih
    obtain ⟨c', hnext, rfl⟩ := hlooks.advance hcall
    obtain ⟨q, hq, rfl⟩ := Cursor.exists_nextToken_atOffset hp hnext
    exact inStep_atOffset hq _
  | value _ hcall ih =>
    obtain ⟨q, hq, rfl⟩ := ih.value hcall
    exact inStep_atOffset hq _
  | structured _ kind hcall ih =>
    obtain ⟨q, hq, rfl⟩ := ih.structured hcall
    exact inStep_atOffset hq _
  | document _ hcall ih =>
    obtain ⟨q, hq, rfl⟩ := ih.document hcall
    exact inStep_atOffset hq _

/-- Of what stands before a value only the length plays a part. -/
theorem valueRead_of_ok {front bytes : List Byte} {d levels : Nat}
    (hlooks : Looks o l (.behind front bytes) d s) (hcall : Parser.value o l levels s = .ok v s') :
    ValueRead o l d front bytes v s' := by
  -- soundness is stated inside a context; the bytes before the cursor need not be one
  obtain ⟨k, hlength, hk⟩ := exists_context o front.length
  have hbehind : Cursor.behind front bytes = .behind k.text bytes := by
    rw [Cursor.behind, Cursor.behind, hlength]
  rw [hbehind] at hlooks
  have hclose : Unclosed o l k bytes := by
    rintro kind - ⟨_, offset⟩ c hnext rfl
    have hopening (s : Structure) : kind.closing ≠ s.opening :=
      (Structure.opening_ne_closing s kind).symm
    obtain ⟨inner, hinner⟩ := exists_valueWith o l levels
    rw [hinner, valueWith_mark hlooks hopening hnext] at hcall
    cases hcall
  have hgives := value_gives o l levels d k bytes s hk hclose hlooks
  rw [hcall] at hgives
  obtain ⟨gap, p, rest, hbytes, hp, hl, hends, hnesting, hv, rfl⟩ := hgives
  refine ⟨gap, p, rest, hbytes, hp, hl, hends, hnesting, hv, ?_⟩
  simp only [Cursor.behind, List.length_append, hlength]

theorem ValueRead.exists_phrase {front bytes : List Byte} {d : Nat}
    (h : ValueRead o l d front bytes v s') (hlooks : Looks o l (.behind front bytes) d s) :
    ∃ (t : Token) (held : State) (p : Phrase .value), Parser.current o l s = .ok t held ∧
      ((front ++ bytes).take s'.pos).drop t.offset = p.text ∧ s'.pos ≤ (front ++ bytes).length ∧
      s' = ⟨.atOffset (front ++ bytes) s'.pos, none, d⟩ ∧ p.Admitted o .paired ∧ p.Within l ∧
      p.nesting ≤ l.nestingDepth.val ∧ p.value = v := by
  obtain ⟨gap, p, rest, rfl, hp, hl, hends, hnesting, rfl, rfl⟩ := h
  obtain ⟨offset, c, hnext, -⟩ := Cursor.nextToken_value hp hl front gap hends
  have hoffset : offset = (front ++ gap.bytes).length := by
    have h := Cursor.offset_of_nextToken hnext
    rwa [Cursor.skipped_behind front gap (p.stops_isBlank rest)] at h
  have hpos : (front ++ (gap.bytes ++ p.text)).length = (front ++ gap.bytes ++ p.text).length := by
    rw [List.append_assoc]
  have hall : front ++ (gap.bytes ++ (p.text ++ rest)) =
      front ++ gap.bytes ++ (p.text ++ rest) := (List.append_assoc _ _ _).symm
  refine ⟨_, _, p, current_ok hlooks hnext, ?_, ?_, ?_, hp, hl, by omega, rfl⟩
  · simp only [Cursor.behind]
    rw [hpos, hoffset, hall, slice_middle]
  · simp [Cursor.behind]
  · simp only [Cursor.behind, Cursor.atOffset]
    rw [hpos, hall, ← List.append_assoc, List.drop_left]

/-- A phrase is by itself a document, of which it is the value. -/
theorem parse_phrase {p : Phrase .value} (hp : p.Admitted o .paired) (hl : p.Within l)
    (hnesting : p.nesting ≤ l.nestingDepth.val) (hlevels : l.nestingDepth.val ≤ levels)
    (hsize : ∀ bound ∈ l.bound .inputSize, p.text.length ≤ bound) (name : String) (r : Reporting) :
    (Source.ofBytes name p.text).parse levels ⟨o, l, r⟩ = .ok p.value := by
  have hspells : Spells o l p.text p.value :=
    ⟨⟨Gap.none, p, Gap.none⟩, by simp [Document.text], hp, hl, hnesting, rfl⟩
  refine (Source.parse_eq_ok rfl).2 ?_
  rw [Contents.text_ofBytes]
  exact (parseText_eq_ok_iff hlevels).2 ⟨hsize, hspells⟩

/-- A value that is read takes its own bytes, from its first token up to the cursor, and these are
by themselves a document with this value. A failure leaves as many structures counted as the tokens
before it leave open. -/
theorem topValue_one_value (h : Unfailed o l text s) :
    (∀ v s', topValue o l levels s = .ok v s' → ∃ t held, Parser.current o l s = .ok t held ∧
      s' = ⟨.atOffset text s'.pos, none, s.depth⟩ ∧ s'.pos ≤ text.length ∧
      let own := (text.take s'.pos).drop t.offset
      Solid own ∧ (∃ p : Phrase .value, p.text = own ∧ p.value = v) ∧
      (∀ levels', l.nestingDepth.val ≤ levels' →
        ∀ (name : String) (r : Reporting) (size : Option Positive),
          (∀ bound ∈ size, own.length ≤ bound.val) →
          (Source.ofBytes name own).parse levels' ⟨o, { l with inputSize := size }, r⟩ = .ok v)) ∧
    ∀ failure s', topValue o l levels s = .error failure s' → ∃ p ts, p ≤ text.length ∧
      Looks o l (.atOffset text p) s.depth s ∧ Halts o l (.atOffset text p) ts failure s' ∧
      s'.depth = s.depth + (nested ts []).length := by
  obtain ⟨p, hp, hlooks⟩ := h.inStep
  constructor
  · intro v s' hcall
    rw [Cursor.atOffset_eq_behind hp] at hlooks
    obtain ⟨t, held, q, hcurrent, hown, hpos, hs', hq, hl, hnesting, rfl⟩ :=
      (valueRead_of_ok hlooks hcall).exists_phrase hlooks
    rw [List.take_append_drop] at hown hpos hs'
    refine ⟨t, held, hcurrent, hs', hpos, ?_⟩
    dsimp only
    rw [hown]
    refine ⟨q.solid, ⟨q, rfl, rfl⟩, fun levels' hlevels name r size hsize => ?_⟩
    refine parse_phrase hq (hl.resized size) hnesting hlevels (fun bound hbound => ?_) name r
    obtain ⟨bound, hmem, rfl⟩ := Option.mem_map.1 hbound
    exact hsize bound hmem
  · intro failure s' hcall
    have hcounts := value_counts o l levels s.depth _ s hlooks
    rw [← topValue, hcall] at hcounts
    obtain ⟨ts, opened, hhalts, hleaves, hdepth⟩ := hcounts
    refine ⟨p, ts, hp, hlooks, hhalts, ?_⟩
    rw [hleaves [], List.append_nil, hdepth]

def brokenArray : List Byte := [0x5b, 0x5b, 0x37, 0x5d, 0x20, 0x2c]

/-- The array inside, its bracket looked at and three structures counted, is read up to the blank;
the array around it fails with itself still open. -/
theorem topValue_brokenArray :
    topValue .strict {} 2 ⟨.atOffset brokenArray 2, some ⟨.mark .openBracket, 1⟩, 3⟩ =
        .ok (.array [.number (.int 7)]) ⟨.atOffset brokenArray 4, none, 3⟩ ∧
      (∀ name, (Source.ofBytes name [0x5b, 0x37, 0x5d]).parse 256 .strict =
        .ok (.array [.number (.int 7)])) ∧
      ∃ s' p ts, topValue .strict {} 2 (.start brokenArray) = .error ⟨.unterminated .array, 6⟩ s' ∧
        Halts .strict {} (.atOffset brokenArray p) ts ⟨.unterminated .array, 6⟩ s' ∧
        (nested ts []).length = 1 := by
  have hread : topValue .strict {} 2 ⟨.atOffset brokenArray 2, some ⟨.mark .openBracket, 1⟩, 3⟩ =
      .ok (.array [.number (.int 7)]) ⟨.atOffset brokenArray 4, none, 3⟩ := by cbv
  have hfailed : topValue .strict {} 2 (.start brokenArray) =
      .error ⟨.unterminated .array, 6⟩ ⟨.atOffset brokenArray 6, some ⟨.eof, 6⟩, 1⟩ := by cbv
  have hopened : Parser.advance .strict {} (.start brokenArray) =
      .ok ⟨.mark .openBracket, 0⟩ ⟨.atOffset brokenArray 1, none, 0⟩ := by cbv
  have hheld : Parser.current .strict {} ⟨.atOffset brokenArray 1, none, 3⟩ =
      .ok ⟨.mark .openBracket, 1⟩
        ⟨.atOffset brokenArray 2, some ⟨.mark .openBracket, 1⟩, 3⟩ := by cbv
  obtain ⟨t, held, hcurrent, -, -, -, -, hparse⟩ :=
    (topValue_one_value (((Unfailed.start.advance hopened).count 3).current hheld)).1 _ _ hread
  obtain ⟨p, ts, -, -, hhalts, hdepth⟩ := (topValue_one_value .start).2 _ _ hfailed
  refine ⟨hread, fun name => ?_, _, p, ts, hfailed, hhalts, ?_⟩
  · cases hcurrent
    exact hparse 256 (by decide) name {} none (by simp)
  · have hstart : (State.start brokenArray).depth = 0 := rfl
    rw [hstart, Nat.zero_add] at hdepth
    exact hdepth.symm

end Parser

end LocatedJson
