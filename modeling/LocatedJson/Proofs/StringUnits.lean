import LocatedJson.Proofs.Reading

/-! Strings one unit at a time. A body is read in runs of plain bytes, each decoded as a whole, with
the escapes between them; the reference here takes a single spelling from the front of what is left
and stops at the first place where none fits. Both come to the same. -/
namespace LocatedJson.StringLiteral

open Grammar

/-- Reads a body by one spelling after the other: at an offset, the bytes from there on, and what
the reading comes to. -/
inductive ReadsUnits (q : Quote) : Nat → List Byte → Reading (List Char) → Prop where
  | close (pos : Nat) (rest : List Byte) : ReadsUnits q pos (q.byte :: rest) (.ok ([], pos + 1))
  | unit {u : Spelling} (hu : u.Admitted .paired q) {pos : Nat} {rest : List Byte}
      {reading : Reading (List Char)} (h : ReadsUnits q (pos + u.text.length) rest reading) :
      ReadsUnits q pos (u.text ++ rest)
        (reading.map fun (text, stop) => (u.char :: text, stop))
  | stuck (pos : Nat) {bytes : List Byte} {cause : Cause} {k : Nat} (h : Stuck q bytes cause k) :
      ReadsUnits q pos bytes (.error ⟨cause, pos + k⟩)

theorem Precedes.located {c : Char} {n pos : Nat} {inner outer : Scanned (List Char)}
    (h : Precedes [c] n inner outer) :
    outer.located pos =
      (inner.located (pos + n)).map fun (text, stop) => (c :: text, stop) := by
  cases inner with
  | ok result =>
    obtain ⟨text, m⟩ := result
    obtain rfl : outer = .ok ([c] ++ text, n + m) := h
    simp [Scanned.located, Except.map, Nat.add_assoc]
  | error f =>
    obtain ⟨g, rfl, hcause, hoffset⟩ := h
    simp [Scanned.located, Except.map, hcause, hoffset, Nat.add_assoc]

/-- Each unit of the reference is one that the scan takes off the front as well. -/
theorem ReadsUnits.eq_located {q : Quote} {pos : Nat} {bytes : List Byte}
    {reading : Reading (List Char)} (h : ReadsUnits q pos bytes reading) :
    reading = (scanBody q.byte bytes).located pos := by
  induction h with
  | close pos rest =>
    rw [scanBody_close]
    rfl
  | unit hu _ ih => rw [(scanBody_spelling hu _).located, ih]
  | stuck pos hstuck =>
    obtain ⟨stop, hscan⟩ := hstuck.scanBody
    rw [hscan]
    rfl

theorem exists_readsUnits (q : Quote) (pos : Nat) (bytes : List Byte) :
    ∃ reading, ReadsUnits q pos bytes reading := by
  induction bytes using body_induction q generalizing pos with
  | close rest => exact ⟨_, .close pos rest⟩
  | spelling u rest hu ih =>
    obtain ⟨reading, hreading⟩ := ih (pos + u.text.length)
    exact ⟨_, .unit hu hreading⟩
  | stuck bytes cause k hstuck => exact ⟨_, .stuck pos hstuck⟩

theorem readsUnits_iff {q : Quote} {pos : Nat} {bytes : List Byte}
    {reading : Reading (List Char)} :
    ReadsUnits q pos bytes reading ↔ reading = (scanBody q.byte bytes).located pos := by
  constructor
  · exact ReadsUnits.eq_located
  · rintro rfl
    obtain ⟨reading, hreading⟩ := exists_readsUnits q pos bytes
    rwa [← hreading.eq_located]

theorem BrokenDigits.eq_length {bytes : List Byte} {k : Nat}
    (h : BrokenDigits bytes .unterminatedString k) : k = bytes.length := by
  cases h with
  | ended => rfl

theorem Stuck.eq_length {q : Quote} {bytes : List Byte} {k : Nat}
    (h : Stuck q bytes .unterminatedString k) : k = bytes.length := by
  cases h with
  | ended => rfl
  | endedEscape => rfl
  | digits hdigits =>
    rw [hdigits.eq_length, List.length_cons, List.length_cons]
    omega
  | @pairDigits d _ _ _ _ hdigits =>
    rw [hdigits.eq_length]
    simp [HexDigits.escape, d.length_eq]
    omega

theorem ReadsUnits.unterminated {q : Quote} {pos : Nat} {bytes : List Byte}
    {reading : Reading (List Char)} (h : ReadsUnits q pos bytes reading) {k : Nat}
    (hreading : reading = .error ⟨.unterminatedString, k⟩) : k = pos + bytes.length := by
  induction h with
  | close => cases hreading
  | @unit u _ _ _ reading _ ih =>
    cases reading with
    | ok result => cases hreading
    | error failure =>
      rw [ih hreading, List.length_append, Nat.add_assoc]
  | stuck pos hstuck =>
    cases hreading
    rw [hstuck.eq_length]

end LocatedJson.StringLiteral

namespace LocatedJson.Reader

open Grammar StringLiteral

/-- At an admitted quote, the chunked reader comes to the one thing that the reference comes to.
What is unterminated is so at the end of the text. -/
theorem readString_eq_units {r : Reader} {pos : Nat} (hpos : r.pos = pos) {q : Quote}
    (hquote : r.contents.buffer[pos]? = some q.byte) (hq : q.Admitted r.options)
    (hlimit : r.limits.stringLength = none) :
    ∃ reading : Reading (List Char),
      r.Comes readString (reading.map fun (text, stop) => (String.ofList text, stop)) ∧
      (∀ other, ReadsUnits q (pos + 1) (r.contents.text.drop (pos + 1)) other ↔
        other = reading) ∧
      (pos < r.contents.size → ∀ k, reading = .error ⟨.unterminatedString, k⟩ →
        k = r.contents.size) := by
  have hcomes := comes_readString hpos hquote ((admits_byte r.options q).2 hq)
  have hfree (n : Nat) : r.limits.violation? .stringLength n = none := by
    simp [Limits.violation?, Limits.broken?, Limits.bound, hlimit]
  refine ⟨_, ?_, fun other => readsUnits_iff, fun hlt k hk => ?_⟩
  · cases hscan : scanBody q.byte (r.contents.text.drop (pos + 1)) with
    | error fault =>
      rw [hscan] at hcomes
      exact hcomes
    | ok result =>
      rw [hscan] at hcomes
      dsimp only [Scanned.located] at hcomes
      rw [hfree] at hcomes
      exact hcomes
  · have hend := (readsUnits_iff.2 rfl).unterminated hk
    rw [hend, List.length_drop, Contents.length_text]
    omega

def halfPair : Contents where
  buffer := [0x20, 0x27, 0xc3, 0xa9, 0x5c, 0x75, 0x64, 0x38, 0x33, 0x64, 0x5c, 0x75, 0x64, 0x45,
    0x30, 0x30, 0x27]
  size := 14
  size_le := by decide

theorem readString_halfPair :
    ReadsUnits .single 2 (halfPair.text.drop 2) (.error ⟨.unterminatedString, 14⟩) ∧
      ∃ r', readString ⟨halfPair, .relaxed, {}, 1⟩ =
        .error (.rejected .unterminatedString (14 : Nat)) r' := by
  have hlow : BrokenDigits [0x64, 0x45] .unterminatedString 2 :=
    .ended (by decide) (by decide +kernel)
  have hstuck : Stuck .single (halfPair.text.drop 4) .unterminatedString 10 :=
    .pairDigits (d := ⟨[0x64, 0x38, 0x33, 0x64], rfl, by decide +kernel⟩)
      ⟨by decide, by decide⟩ hlow
  have hunits : ReadsUnits .single 2 (halfPair.text.drop 2) (.error ⟨.unterminatedString, 14⟩) :=
    .unit (u := .plain 'é') ⟨by decide, by decide, by decide⟩ (.stuck 4 hstuck)
  obtain ⟨reading, hcomes, hreads, -⟩ :=
    readString_eq_units (r := ⟨halfPair, .relaxed, {}, 1⟩) (q := .single)
      (rfl : (1 : Int) = (1 : Nat)) rfl rfl rfl
  obtain rfl := (hreads _).1 hunits
  exact ⟨hunits, hcomes⟩

end LocatedJson.Reader
