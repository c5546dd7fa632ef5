import LocatedJson.Proofs.Reading

/-! Writing strings. A character can be written raw, with a short escape, with its code, or with
the two halves of its code. Reading undoes every way of writing, and reads nothing else. -/
namespace LocatedJson.StringLiteral

open Grammar
open String (utf8EncodeChar)

/-- The ways to write a character between quotes of a kind. A character beyond the first `0x10000`
has no code of four digits and is written with a high and a low half. -/
inductive Writes (q : Quote) : Char → List Byte → Prop where
  | raw {c : Char} (hcontrol : 0x20 ≤ c.toNat) (hslash : c ≠ '\\') (hquote : c ≠ q.char) :
      Writes q c (utf8EncodeChar c)
  | short {e : Letter} (h : e = .apostrophe → q = .single) :
      Writes q e.char [Byte.backslash, e.byte]
  | code {c : Char} {d : HexDigits} (h : d.value = c.toNat) : Writes q c d.escape
  | halves {c : Char} {high low : HexDigits} (h : 0x10000 ≤ c.toNat)
      (hhigh : high.value = 0xd800 + (c.toNat - 0x10000) / 0x400)
      (hlow : low.value = 0xdc00 + (c.toNat - 0x10000) % 0x400) :
      Writes q c (high.escape ++ low.escape)

theorem toNat_ofNat {n : Nat} (h : n.isValidChar) : (Char.ofNat n).toNat = n :=
  Utf8.toNat_val_ofNat h

theorem halves_admitted {q : Quote} {c : Char} {high low : HexDigits} (h : 0x10000 ≤ c.toNat)
    (hhigh : high.value = 0xd800 + (c.toNat - 0x10000) / 0x400)
    (hlow : low.value = 0xdc00 + (c.toNat - 0x10000) % 0x400) :
    (Spelling.pair high low).Admitted .paired q ∧ (Spelling.pair high low).char = c := by
  have hbound : c.toNat < 0xd800 ∨ 0xdfff < c.toNat ∧ c.toNat < 0x110000 := Utf8.toNat_val_bound c
  constructor
  · constructor
    · unfold HexDigits.IsHigh
      omega
    · unfold HexDigits.IsLow
      omega
  · have hcode : 0x10000 + (high.value - 0xd800) * 0x400 + (low.value - 0xdc00) = c.toNat := by
      omega
    rw [Spelling.char, hcode, Char.ofNat_toNat]

theorem writes_iff {q : Quote} {c : Char} {bytes : List Byte} :
    Writes q c bytes ↔ ∃ u : Spelling, u.Admitted .paired q ∧ u.char = c ∧ u.text = bytes := by
  constructor
  · rintro (⟨hcontrol, hslash, hquote⟩ | ⟨h⟩ | ⟨h⟩ | ⟨h, hhigh, hlow⟩)
    · exact ⟨.plain c, ⟨hcontrol, hslash, hquote⟩, rfl, rfl⟩
    · exact ⟨.letter _, h, rfl, rfl⟩
    · rename_i d
      have hbound : c.toNat < 0xd800 ∨ 0xdfff < c.toNat ∧ c.toNat < 0x110000 :=
        Utf8.toNat_val_bound c
      refine ⟨.code d, fun _ => ?_, ?_, rfl⟩
      · unfold HexDigits.IsHigh HexDigits.IsLow
        omega
      · rw [Spelling.char, h, Char.ofNat_toNat]
    · obtain ⟨hadmitted, hchar⟩ := halves_admitted h hhigh hlow
      exact ⟨.pair _ _, hadmitted, hchar, rfl⟩
  · rintro ⟨u, hu, rfl, rfl⟩
    cases u with
    | plain c => exact .raw hu.1 hu.2.1 hu.2.2
    | letter e => exact .short hu
    | code d =>
      obtain ⟨hhigh, hlow⟩ := hu rfl
      exact .code (toNat_ofNat (isValidChar_code hlow hhigh)).symm
    | pair high low =>
      have hvalid := toNat_ofNat (isValidChar_pair hu.1 hu.2)
      obtain ⟨hhigh, hlow⟩ := hu
      unfold pairedCodePoint at hvalid
      unfold HexDigits.IsHigh at hhigh
      unfold HexDigits.IsLow at hlow
      refine .halves ?_ ?_ ?_ <;> (rw [Spelling.char, hvalid]; omega)

theorem forall₂_writes_iff {q : Quote} {text : List Char} {pieces : List (List Byte)} :
    List.Forall₂ (Writes q) text pieces ↔
      ∃ units : List Spelling, (∀ u ∈ units, u.Admitted .paired q) ∧
        units.map Spelling.char = text ∧ units.map Spelling.text = pieces := by
  constructor
  · intro h
    induction h with
    | nil => exact ⟨[], by simp, rfl, rfl⟩
    | cons hwrites _ ih =>
      obtain ⟨u, hu, rfl, rfl⟩ := writes_iff.1 hwrites
      obtain ⟨units, hunits, rfl, rfl⟩ := ih
      exact ⟨u :: units, List.forall_mem_cons.2 ⟨hu, hunits⟩, rfl, rfl⟩
  · rintro ⟨units, hunits, rfl, rfl⟩
    rw [List.forall₂_map_left_iff, List.forall₂_map_right_iff, List.forall₂_same]
    exact fun u hu => writes_iff.2 ⟨u, hunits u hu, rfl, rfl⟩

theorem scanBody_eq_ok_iff {q : Quote} {bytes : List Byte} {text : List Char} {n : Nat} :
    scanBody q.byte bytes = .ok (text, n) ↔
      ∃ (pieces : List (List Byte)) (rest : List Byte), List.Forall₂ (Writes q) text pieces ∧
        bytes = pieces.flatten ++ q.byte :: rest ∧ n = pieces.flatten.length + 1 := by
  constructor
  · intro h
    obtain ⟨units, rest, hunits, hbytes, rfl, hn⟩ := exists_units_of_scanBody h
    rw [List.flatMap_def] at hbytes hn
    exact ⟨_, rest, forall₂_writes_iff.2 ⟨units, hunits, rfl, rfl⟩, hbytes, hn⟩
  · rintro ⟨pieces, rest, hwrites, rfl, rfl⟩
    obtain ⟨units, hunits, rfl, rfl⟩ := forall₂_writes_iff.1 hwrites
    rw [← List.flatMap_def]
    exact scanBody_units hunits rest

end LocatedJson.StringLiteral

namespace LocatedJson.Reader

open Grammar StringLiteral

/-- At a quote of an admitted kind, a string within the limit is read exactly where it is written
out behind the quote with another such quote at its end; the reader then stands behind that one.
No half of a code is left over. -/
theorem readString_ok_iff_written {r : Reader} {pos : Nat} (hpos : r.pos = pos) {q : Quote}
    (hquote : r.contents.buffer[pos]? = some q.byte) (s : String) (r' : Reader) :
    (r.readString = .ok s r' ↔
      q.Admitted r.options ∧ (∀ bound ∈ r.limits.bound .stringLength, s.length ≤ bound) ∧
        ∃ (pieces : List (List Byte)) (rest : List Byte),
          List.Forall₂ (Writes q) s.toList pieces ∧
          r.contents.text.drop (pos + 1) = pieces.flatten ++ q.byte :: rest ∧
          r' = r.seek (pos + pieces.flatten.length + 2 : Nat)) ∧
      (r.readString = .ok s r' → ∀ c ∈ s.toList, ¬ (0xd800 ≤ c.toNat ∧ c.toNat ≤ 0xdfff)) := by
  refine ⟨?_, fun _ c _ hsurrogate => ?_⟩
  · rw [readString_eq_ok_iff hpos hquote, admits_byte]
    refine and_congr_right fun _ => ?_
    constructor
    · rintro ⟨text, n, hscan, hlimit, rfl, rfl⟩
      obtain ⟨pieces, rest, hwrites, hbytes, rfl⟩ := scanBody_eq_ok_iff.1 hscan
      rw [String.length_ofList, String.toList_ofList]
      refine ⟨Limits.violation?_eq_none_iff.1 hlimit, pieces, rest, hwrites, hbytes, ?_⟩
      congr 2
      omega
    · rintro ⟨hlimit, pieces, rest, hwrites, hbytes, rfl⟩
      refine ⟨s.toList, pieces.flatten.length + 1,
        scanBody_eq_ok_iff.2 ⟨pieces, rest, hwrites, hbytes, rfl⟩,
        Limits.violation?_eq_none_iff.2 hlimit, String.ofList_toList.symm, ?_⟩
      congr 2
      omega
  · have hvalid : c.toNat < 0xd800 ∨ 0xdfff < c.toNat ∧ c.toNat < 0x110000 :=
      Utf8.toNat_val_bound c
    omega

def fourWays : List Byte :=
  [0x27, 0xc3, 0xa9, 0x5c, 0x27, 0x5c, 0x75, 0x30, 0x30, 0x45, 0x39, 0x5c, 0x75, 0x64, 0x38, 0x33,
    0x44, 0x5c, 0x75, 0x44, 0x65, 0x30, 0x30, 0x27, 0x3a]

theorem readString_fourWays :
    readString ⟨.ofBytes fourWays, .relaxed, {}, 0⟩ =
      .ok "é'é😀" ⟨.ofBytes fourWays, .relaxed, {}, (24 : Nat)⟩ := by
  have hwrites : List.Forall₂ (Writes .single) ['é', '\x27', 'é', '😀']
      [[0xc3, 0xa9], [0x5c, 0x27], [0x5c, 0x75, 0x30, 0x30, 0x45, 0x39],
        [0x5c, 0x75, 0x64, 0x38, 0x33, 0x44, 0x5c, 0x75, 0x44, 0x65, 0x30, 0x30]] :=
    .cons (.raw (by decide) (by decide) (by decide)) <|
    .cons (.short (e := .apostrophe) fun _ => rfl) <|
    .cons (.code (d := ⟨[0x30, 0x30, 0x45, 0x39], rfl, by decide +kernel⟩) rfl) <|
    .cons (@Writes.halves .single '😀' ⟨[0x64, 0x38, 0x33, 0x44], rfl, by decide +kernel⟩
      ⟨[0x44, 0x65, 0x30, 0x30], rfl, by decide +kernel⟩ (by decide) rfl rfl) .nil
  exact (readString_ok_iff_written (r := ⟨.ofBytes fourWays, .relaxed, {}, 0⟩) (q := .single)
    (rfl : (0 : Int) = (0 : Nat)) rfl "é'é😀" _).1.2 ⟨rfl, nofun, _, [0x3a], hwrites, rfl, rfl⟩

end LocatedJson.Reader
