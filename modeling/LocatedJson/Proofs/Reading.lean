import LocatedJson.Proofs.Lexing.Lexemes
import LocatedJson.Reader.Steps

/-! A reader at an offset of its buffer. What a lexeme's scan tells in distances, the reader tells
in offsets, and nothing else comes of a reading there. -/
namespace LocatedJson

/-- What a reading comes to: what is read and the offset behind it, or a failure. -/
abbrev Reading (α : Type) := Except Failure (α × Nat)

def Scanned.located {α : Type} (pos : Nat) : Scanned α → Reading α
  | .ok (a, n) => .ok (a, pos + n)
  | .error f => .error ⟨f.cause, pos + f.offset⟩

namespace Reader

def Comes {α : Type} (r : Reader) (step : ReaderM α) : Reading α → Prop
  | .ok (a, stop) => step r = .ok a (r.seek stop)
  | .error failure => ∃ r', step r = .error (.rejected failure.cause failure.offset) r'

theorem Comes.eq_ok_iff {α : Type} {r r' : Reader} {step : ReaderM α} {reading : Reading α}
    (h : r.Comes step reading) {a : α} :
    step r = .ok a r' ↔ ∃ stop : Nat, reading = .ok (a, stop) ∧ r' = r.seek stop := by
  cases reading with
  | ok result =>
    obtain ⟨a', stop⟩ := result
    have hstep : step r = .ok a' (r.seek stop) := h
    rw [hstep]
    constructor
    · rintro ⟨⟩
      exact ⟨stop, rfl, rfl⟩
    · rintro ⟨_, ⟨⟩, rfl⟩
      rfl
  | error failure =>
    obtain ⟨_, hstep⟩ := h
    rw [hstep]
    constructor
    · nofun
    · rintro ⟨_, ⟨⟩, -⟩

variable {r : Reader} {pos : Nat}

theorem origin_eq (hpos : r.pos = pos) : r.origin = min pos r.contents.buffer.length := by
  rw [origin, hpos, Bytes.fromFront, if_neg (by omega), Int.toNat_natCast]

theorem ahead_eq (hpos : r.pos = pos) : r.ahead = r.contents.text.drop pos := by
  have hsize := r.contents.size_le
  rw [ahead, origin_eq hpos]
  rcases Nat.le_total pos r.contents.buffer.length with h | h
  · rw [Nat.min_eq_left h]
  · have hend (n : Nat) (hn : r.contents.buffer.length ≤ n) : r.contents.text.drop n = [] := by
      rw [List.drop_eq_nil_iff, Contents.length_text]
      omega
    rw [Nat.min_eq_right h, hend _ (Nat.le_refl _), hend _ h]

theorem at?_eq {b : Byte} (hpos : r.pos = pos) (hb : r.contents.buffer[pos]? = some b) :
    Bytes.at? r.contents.buffer r.pos = some b := by
  rw [hpos, Bytes.at?, Bytes.fromFront, if_neg (by omega), if_neg (by omega), Int.toNat_natCast, hb]

theorem bodyFailure_eq (hpos : r.pos = pos) (hle : pos ≤ r.contents.buffer.length)
    (fault : Fault) :
    r.bodyFailure fault =
      (.rejected fault.cause (pos + fault.offset : Nat), r.seek (pos + fault.stop : Nat)) := by
  have horigin := (origin_eq hpos).trans (Nat.min_eq_left hle)
  simp [bodyFailure, horigin, hpos]

theorem comes_readString {quote : Byte} (hpos : r.pos = pos)
    (hquote : r.contents.buffer[pos]? = some quote)
    (hadmits : StringLiteral.admits r.options quote = true) :
    r.Comes readString
      (match (StringLiteral.scanBody quote (r.contents.text.drop (pos + 1))).located (pos + 1) with
        | .error failure => .error failure
        | .ok (text, stop) =>
          match r.limits.violation? .stringLength text.length with
          | some cause => .error ⟨cause, pos⟩
          | none => .ok (String.ofList text, stop)) := by
  have hlt : pos < r.contents.buffer.length := (List.getElem?_eq_some_iff.1 hquote).1
  have hat := at?_eq hpos hquote
  have hbehind : (r.seek (r.pos + 1)).pos = (pos + 1 : Nat) := by
    rw [hpos]
    rfl
  have horigin : (r.seek (r.pos + 1)).origin = pos + 1 :=
    (origin_eq hbehind).trans (Nat.min_eq_left hlt)
  have hahead : (r.seek (r.pos + 1)).ahead = r.contents.text.drop (pos + 1) := ahead_eq hbehind
  have hstep : readString r = readString r := rfl
  conv_rhs at hstep =>
    simp only [readString, hat, hadmits, Bool.not_true, Bool.false_eq_true, ↓reduceIte, hahead,
      horigin]
  cases hscan : StringLiteral.scanBody quote (r.contents.text.drop (pos + 1)) with
  | error fault =>
    simp only [hscan, bodyFailure_eq hbehind hlt] at hstep
    exact ⟨_, hstep⟩
  | ok result =>
    dsimp only [Scanned.located]
    cases hlimit : r.limits.violation? .stringLength result.1.length with
    | some cause =>
      simp only [hscan, hlimit, hpos] at hstep
      exact ⟨_, hstep⟩
    | none =>
      simp only [hscan, hlimit] at hstep
      exact hstep

theorem readString_eq_ok_iff {quote : Byte} (hpos : r.pos = pos)
    (hquote : r.contents.buffer[pos]? = some quote) {s : String} {r' : Reader} :
    readString r = .ok s r' ↔ StringLiteral.admits r.options quote = true ∧
      ∃ text n, StringLiteral.scanBody quote (r.contents.text.drop (pos + 1)) = .ok (text, n) ∧
        r.limits.violation? .stringLength text.length = none ∧ s = String.ofList text ∧
        r' = r.seek (pos + 1 + n : Nat) := by
  by_cases hadmits : StringLiteral.admits r.options quote = true
  · rw [(comes_readString hpos hquote hadmits).eq_ok_iff, and_iff_right hadmits]
    constructor
    · rintro ⟨stop, hreading, rfl⟩
      cases hscan : StringLiteral.scanBody quote (r.contents.text.drop (pos + 1)) with
      | error fault =>
        rw [hscan] at hreading
        cases hreading
      | ok result =>
        rw [hscan] at hreading
        dsimp only [Scanned.located] at hreading
        cases hlimit : r.limits.violation? .stringLength result.1.length with
        | some cause =>
          rw [hlimit] at hreading
          cases hreading
        | none =>
          rw [hlimit] at hreading
          cases hreading
          exact ⟨_, _, rfl, hlimit, rfl, rfl⟩
    · rintro ⟨text, n, hscan, hlimit, rfl, rfl⟩
      refine ⟨_, ?_, rfl⟩
      rw [hscan]
      simp only [Scanned.located, hlimit]
  · have hstep : readString r = .error (.rejected (.notEnabled .singleQuotes) r.pos) r := by
      simp [readString, at?_eq hpos hquote, hadmits]
    rw [hstep]
    exact iff_of_false nofun fun h => hadmits h.1

theorem comes_readNumber (hpos : r.pos = pos) :
    r.Comes readNumber
      ((Number.scan r.options r.limits (r.contents.text.drop pos)).located pos) := by
  have hstep : readNumber r =
      follow (Cursor.read (Number.scan r.options r.limits)) ⟨pos, r.contents.text.drop pos⟩ r := by
    unfold readNumber
    rw [if_neg (by omega), ahead_eq hpos, hpos, Int.toNat_natCast]
  cases hscan : Number.scan r.options r.limits (r.contents.text.drop pos) with
  | error fault => exact ⟨_, by rw [hstep, follow, Cursor.read, hscan]⟩
  | ok result => exact hstep.trans (by rw [follow, Cursor.read, hscan]; rfl)

theorem readNumber_eq_ok_iff (hpos : r.pos = pos) {x : Number} {r' : Reader} :
    readNumber r = .ok x r' ↔ ∃ n,
      Number.scan r.options r.limits (r.contents.text.drop pos) = .ok (x, n) ∧
        r' = r.seek (pos + n : Nat) := by
  rw [(comes_readNumber hpos).eq_ok_iff]
  cases Number.scan r.options r.limits (r.contents.text.drop pos) with
  | error fault => simp [Scanned.located]
  | ok result => simp [Scanned.located, Prod.ext_iff]

end Reader

end LocatedJson
