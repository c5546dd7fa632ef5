import LocatedJson.Proofs.Coverage
import LocatedJson.Proofs.LongestNumbers
import LocatedJson.Proofs.Parsing.Whole

/-! How long a number may be. The limit is asked of every number that is written with digits, before
anything else of its value, and of none that is written with letters: such a number is a token
whatever the limit. -/
namespace LocatedJson

open Grammar

theorem Number.scan_long {o : Options} {l : Limits} {n : Decimal} {rest : List Byte} {bound : Nat}
    (hn : n.Admitted o) (hrest : (Scalar.decimal n).EndsBefore rest)
    (hbound : bound ∈ l.bound .numberLength) (hlong : bound < n.text.length) :
    Number.scan o l (n.text ++ rest) =
      .error ⟨.limitExceeded .numberLength n.text.length bound, 0, n.text.length⟩ := by
  rw [scan_of_no_special (SpecialNumber.ofFront?_decimal n rest), Numeral.scan_decimal hn hrest]
  simp only [Limits.violation?_of_lt hbound hlong]

theorem Grammar.NumberLiteral.exists_of_kind {y : Lexeme} {x : Number} (h : y.kind = .number x) :
    ∃ m : NumberLiteral, y = .scalar m.scalar ∧ x = m.number := by
  match y with
  | .scalar (.special s) =>
    cases h
    exact ⟨.special s, rfl, rfl⟩
  | .scalar (.decimal n) =>
    cases h
    exact ⟨.decimal n, rfl, rfl⟩

namespace Cursor

variable {o : Options} {l : Limits} {c c' : Cursor} {t : Token}

theorem exists_number {x : Number} (h : nextToken o l c = .ok t c') (ht : t.kind = .number x) :
    ∃ (gap : Gap) (m : NumberLiteral) (rest : List Byte),
      c.rest = gap.bytes ++ (m.text ++ rest) ∧ m.Admitted o ∧ m.scalar.Within l ∧ x = m.number ∧
        t.offset = c.pos + gap.bytes.length ∧ c'.pos = t.offset + m.text.length := by
  obtain ⟨text, hc⟩ := exists_behind c
  have hpos : c.pos = text.length := by rw [hc]; rfl
  have hpulls := nextToken_pulls o l text c.rest
  rw [← hc, h] at hpulls
  generalize hbytes : c.rest = bytes at hpulls
  cases hpulls with
  | eof gap hgap => cases ht
  | lexeme gap y rest hsplit hy hl hrest =>
    obtain ⟨m, rfl, rfl⟩ := NumberLiteral.exists_of_kind ht
    refine ⟨gap, m, rest, hsplit, hy, hl, rfl, by simp [hpos], ?_⟩
    simp only [behind, List.length_append, Nat.add_assoc]
    rfl

variable (gap : Gap) {rest : List Byte}

theorem nextToken_long {n : Decimal} {bound : Nat} (hn : n.Admitted o)
    (hbound : bound ∈ l.bound .numberLength) (hlong : bound < n.text.length)
    (hrest : (Scalar.decimal n).EndsBefore rest) (pos : Nat) :
    nextToken o l ⟨pos, gap.bytes ++ (n.text ++ rest)⟩ =
      .error ⟨.limitExceeded .numberLength n.text.length bound, pos + gap.bytes.length⟩
        ⟨pos + gap.bytes.length + n.text.length, rest⟩ := by
  have hstops : Stops Byte.isBlank (n.text ++ rest) :=
    Token.Kind.stops_isBlank_lexeme (.scalar (.decimal n)) rest
  have hnext := nextToken_eq o l (List.replicate pos 0) gap hstops
  rw [Token.Kind.scan_decimal, Number.scan_long hn hrest hbound hlong] at hnext
  simpa [behind, advance, Except.map] using hnext

theorem nextToken_special (hon : o.infinityAndNan = true) (s : SpecialNumber) (pos : Nat) :
    nextToken o l ⟨pos, gap.bytes ++ (s.spelling ++ rest)⟩ =
      .ok ⟨.number s.toNumber, pos + gap.bytes.length⟩
        ⟨pos + gap.bytes.length + s.spelling.length, rest⟩ := by
  have hrest : (Lexeme.scalar (.special s)).EndsBefore rest := trivial
  have hnext := nextToken_lexeme (l := l) (x := .scalar (.special s)) hon trivial
    (List.replicate pos 0) gap hrest
  simpa [behind, Nat.add_assoc, Lexeme.text, Lexeme.kind, Scalar.text, Scalar.kind, letters_eq]
    using hnext

end Cursor

namespace Reader

theorem follow_ok {α : Type} {work : CursorM α} {c c' : Cursor} {a : α} (h : work c = .ok a c')
    (r : Reader) : follow work c r = .ok a (r.seek c'.pos) := by
  rw [follow, h]

theorem follow_error {α : Type} {work : CursorM α} {c c' : Cursor} {failure : Failure}
    (h : work c = .error failure c') (r : Reader) :
    follow work c r = .error (.rejected failure.cause failure.offset) (r.seek c'.pos) := by
  rw [follow, h]

theorem exists_of_next {r r' : Reader} {t : Token} (h : r.next = .ok t r') :
    ∃ c', Cursor.nextToken r.options r.limits ⟨r.origin, r.ahead⟩ = .ok t c' ∧
      r' = r.seek c'.pos := by
  rw [next, follow] at h
  split at h
  · next t' c' hnext =>
    cases h
    exact ⟨c', hnext, rfl⟩
  · cases h

end Reader

/-- Where a limit is set, a number token that is longer is written with letters. A longer number of
the grammar that is written with digits is refused at its first byte, with its length and the limit,
and one that is written with letters is a token all the same. -/
theorem Reader.next_number_length {r : Reader} {bound : Positive}
    (hbound : r.limits.numberLength = some bound) :
    (∀ t r' x, r.next = .ok t r' → t.kind = .number x →
      ∃ m : NumberLiteral, m.Admitted r.options ∧ m.text <+: r.contents.text.drop t.offset ∧
        x = m.number ∧ r' = r.seek (t.offset + m.text.length : Nat) ∧
        (bound.val < m.text.length → ∃ s, m = .special s)) ∧
    ∀ (gap : Gap) (m : NumberLiteral) (rest : List Byte),
      r.ahead = gap.bytes ++ (m.text ++ rest) → m.Admitted r.options →
      m.scalar.EndsBefore rest → bound.val < m.text.length →
      let offset := r.origin + gap.bytes.length
      let behind := r.seek (offset + m.text.length : Nat)
      r.next =
        match m with
        | .decimal _ =>
          .error (.rejected (.limitExceeded .numberLength m.text.length bound.val) offset) behind
        | .special s => .ok ⟨.number s.toNumber, offset⟩ behind := by
  have hmem : bound.val ∈ r.limits.bound .numberLength := by simp [Limits.bound, hbound]
  constructor
  · intro t r' x hnext hkind
    obtain ⟨c', hread, rfl⟩ := exists_of_next hnext
    obtain ⟨gap, m, rest, hahead, hm, hwithin, hx, hoffset, hpos⟩ :=
      Cursor.exists_number hread hkind
    refine ⟨m, hm, ?_, hx, by rw [hpos], fun hlong => ?_⟩
    · have hdrop : r.contents.text.drop t.offset = r.ahead.drop gap.bytes.length := by
        rw [hoffset, ahead, List.drop_drop]
      have hbytes : r.ahead = gap.bytes ++ (m.text ++ rest) := hahead
      rw [hdrop, hbytes, List.drop_left]
      exact List.prefix_append _ _
    · cases m with
      | special s => exact ⟨s, rfl⟩
      | decimal n => exact absurd (hwithin.1 _ hbound) (Nat.not_le.2 hlong)
  · intro gap m rest hahead hm hrest hlong offset behind
    rw [next, hahead]
    cases m with
    | decimal n => exact follow_error (Cursor.nextToken_long gap hm hmem hlong hrest r.origin) r
    | special s => exact follow_ok (Cursor.nextToken_special gap hm s r.origin) r

def longNumbers : List Byte := 0x20 :: Byte.ascii "-1250,-Infinity".toList

/-- With a limit of four bytes the first is refused and the second is read. -/
theorem Reader.next_longNumbers :
    let r : Reader := ⟨.ofBytes longNumbers, .relaxed, { numberLength := some ⟨4, by decide⟩ }, 0⟩
    r.next = .error (.rejected (.limitExceeded .numberLength 5 4) (1 : Nat)) (r.seek (6 : Nat)) ∧
      (r.seek 7).next =
        .ok ⟨.number (.float (.infinity true)), 7⟩ ((r.seek 7).seek (16 : Nat)) := by
  intro r
  let digits : Digits := ⟨Byte.ascii ['1', '2', '5', '0'], nofun, by decide +kernel⟩
  let n : Decimal := ⟨.minus, .positive digits (by decide +kernel), none, none, nofun⟩
  have hends : (NumberLiteral.decimal n).scalar.EndsBefore (Byte.ascii ",-Infinity".toList) := by
    rintro b ⟨⟩
    rfl
  have hlong := (Reader.next_number_length (r := r) rfl).2 ⟨[0x20], by decide +kernel⟩
    (.decimal n) (Byte.ascii ",-Infinity".toList) (by cbv) ⟨nofun, nofun⟩ hends (by cbv)
  have hspecial := (Reader.next_number_length (r := r.seek 7) rfl).2 Gap.none
    (.special .negativeInfinity) [] (by cbv) rfl trivial (by cbv)
  exact ⟨hlong, hspecial⟩

def eightLetters : List Byte := [0x49, 0x6e, 0x66, 0x69, 0x6e, 0x69, 0x74, 0x79]

/-- They are a number token, and a document, also where a number is to have three bytes at most. -/
theorem Reader.next_eightLetters :
    let config : Config :=
      { options := { infinityAndNan := true }, limits := { numberLength := some ⟨3, by decide⟩ } }
    let r := Reader.ofContents (.ofBytes eightLetters) config.options config.limits
    r.next = .ok ⟨.number (.float (.infinity false)), 0⟩ (r.seek (8 : Nat)) ∧
      (Source.ofBytes "letters.json" eightLetters).parse 256 config =
        .ok (.number (.float (.infinity false))) ∧
      3 < eightLetters.length :=
  ⟨follow_ok (Cursor.nextToken_special Gap.none rfl .infinity 0) _,
    (Source.parse_eq_ok rfl).2 rfl, by decide⟩

end LocatedJson
