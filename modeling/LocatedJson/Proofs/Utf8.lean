import LocatedJson.Utf8
import Mathlib

/-! The table of lead bytes describes exactly the encodings of characters. A piece is a character
if and only if the bytes ahead begin with that character's encoding, so that strict decoding is the
inverse of encoding and takes a text one character at a time. -/
namespace LocatedJson.Utf8

open String (utf8EncodeChar)

/-- One byte in each of the ranges. -/
abbrev Fits (ranges : List ByteRange) (bytes : List Byte) : Prop :=
  List.Forall₂ (fun r b => r.contains b = true) ranges bytes

theorem ByteRange.contains_iff (r : ByteRange) (b : Byte) :
    r.contains b = true ↔ r.low.toNat ≤ b.toNat ∧ b.toNat ≤ r.high.toNat := by
  simp [contains, UInt8.le_iff_toNat_le]

theorem continuation_contains_iff (b : Byte) :
    continuation.contains b = true ↔ 0x80 ≤ b.toNat ∧ b.toNat ≤ 0xbf :=
  ByteRange.contains_iff continuation b

theorem fitting_append {ranges : List ByteRange} {front : List Byte} (h : Fits ranges front)
    (rest : List Byte) : fitting ranges (front ++ rest) = ranges.length := by
  induction h with
  | nil => cases rest <;> rfl
  | cons hb _ ih => simp only [List.cons_append, fitting, hb, ↓reduceIte, ih, List.length_cons]

theorem fits_take_of_fitting {ranges : List ByteRange} {bytes : List Byte}
    (h : fitting ranges bytes = ranges.length) : Fits ranges (bytes.take ranges.length) := by
  induction ranges generalizing bytes with
  | nil => exact .nil
  | cons r ranges ih =>
    cases bytes with
    | nil => simp [fitting] at h
    | cons b bytes =>
      by_cases hb : r.contains b = true
      · simp only [fitting, hb, ↓reduceIte, List.length_cons, Nat.add_right_cancel_iff] at h
        exact .cons hb (ih h)
      · simp [fitting, hb] at h

theorem toNat_val_ofNat {n : Nat} (h : n.isValidChar) : (Char.ofNat n).val.toNat = n := by
  simp [Char.ofNat, h, Char.ofNatAux]

private theorem ofNat_eq_of_toNat {b : Byte} {n : Nat} (h : b.toNat = n) : UInt8.ofNat n = b := by
  rw [← h, UInt8.ofNat_toNat]

/-! The encoder cuts a code point into groups of six bits; the decoder puts the groups together.
Each width is checked on the groups, where the two are inverse by arithmetic. -/

theorem codePoint_ascii (a : Byte) : codePoint a [] = a.toNat := by
  simp [codePoint, leadBits]

theorem codePoint_two (a b : Byte) : codePoint a [b] = a.toNat % 32 * 64 + b.toNat % 64 := rfl

theorem codePoint_three (a b c : Byte) :
    codePoint a [b, c] = (a.toNat % 16 * 64 + b.toNat % 64) * 64 + c.toNat % 64 := rfl

theorem codePoint_four (a b c d : Byte) :
    codePoint a [b, c, d] =
      ((a.toNat % 8 * 64 + b.toNat % 64) * 64 + c.toNat % 64) * 64 + d.toNat % 64 := rfl

private theorem encodeChar_one {a : Byte} (ha : a.toNat < 0x80) :
    utf8EncodeChar (Char.ofNat (codePoint a [])) = [a] := by
  have hv : (Char.ofNat a.toNat).val.toNat = a.toNat := toNat_val_ofNat (.inl (by omega))
  simp only [utf8EncodeChar, codePoint_ascii, hv]
  rw [if_pos (by omega), UInt8.ofNat_toNat]

private theorem encodeChar_two {a b : Byte} (ha : 0xc2 ≤ a.toNat) (ha' : a.toNat < 0xe0)
    (hb : continuation.contains b) : utf8EncodeChar (Char.ofNat (codePoint a [b])) = [a, b] := by
  rw [continuation_contains_iff] at hb
  have hv := toNat_val_ofNat (n := a.toNat % 32 * 64 + b.toNat % 64) (.inl (by omega))
  simp only [utf8EncodeChar, codePoint_two, hv]
  rw [if_neg (by omega), if_pos (by omega), ofNat_eq_of_toNat (b := a) (by omega),
    ofNat_eq_of_toNat (b := b) (by omega)]

private theorem encodeChar_three {a b c : Byte} (ha : 0xe0 ≤ a.toNat) (ha' : a.toNat < 0xf0)
    (hb : continuation.contains b) (low : a.toNat = 0xe0 → 0xa0 ≤ b.toNat)
    (high : a.toNat = 0xed → b.toNat ≤ 0x9f) (hc : continuation.contains c) :
    utf8EncodeChar (Char.ofNat (codePoint a [b, c])) = [a, b, c] := by
  rw [continuation_contains_iff] at hb hc
  have hv := toNat_val_ofNat (n := (a.toNat % 16 * 64 + b.toNat % 64) * 64 + c.toNat % 64)
    (by unfold Nat.isValidChar; omega)
  simp only [utf8EncodeChar, codePoint_three, hv]
  rw [if_neg (by omega), if_neg (by omega), if_pos (by omega),
    ofNat_eq_of_toNat (b := a) (by omega), ofNat_eq_of_toNat (b := b) (by omega),
    ofNat_eq_of_toNat (b := c) (by omega)]

private theorem encodeChar_four {a b c d : Byte} (ha : 0xf0 ≤ a.toNat) (ha' : a.toNat ≤ 0xf4)
    (hb : continuation.contains b) (low : a.toNat = 0xf0 → 0x90 ≤ b.toNat)
    (high : a.toNat = 0xf4 → b.toNat ≤ 0x8f) (hc : continuation.contains c)
    (hd : continuation.contains d) :
    utf8EncodeChar (Char.ofNat (codePoint a [b, c, d])) = [a, b, c, d] := by
  rw [continuation_contains_iff] at hb hc hd
  have hv := toNat_val_ofNat
    (n := ((a.toNat % 8 * 64 + b.toNat % 64) * 64 + c.toNat % 64) * 64 + d.toNat % 64)
    (by unfold Nat.isValidChar; omega)
  simp only [utf8EncodeChar, codePoint_four, hv]
  rw [if_neg (by omega), if_neg (by omega), if_neg (by omega),
    ofNat_eq_of_toNat (b := a) (by omega), ofNat_eq_of_toNat (b := b) (by omega),
    ofNat_eq_of_toNat (b := c) (by omega), ofNat_eq_of_toNat (b := d) (by omega)]

/-- What fits the table, by the number of bytes: the second of three or four is bounded further
behind some lead bytes. -/
inductive Shape : Byte → List Byte → Prop where
  | one {a : Byte} (ha : a.toNat < 0x80) : Shape a []
  | two {a b : Byte} (ha : 0xc2 ≤ a.toNat) (ha' : a.toNat < 0xe0) (hb : continuation.contains b) :
      Shape a [b]
  | three {a b c : Byte} (ha : 0xe0 ≤ a.toNat) (ha' : a.toNat < 0xf0) (hb : continuation.contains b)
      (low : a.toNat = 0xe0 → 0xa0 ≤ b.toNat) (high : a.toNat = 0xed → b.toNat ≤ 0x9f)
      (hc : continuation.contains c) : Shape a [b, c]
  | four {a b c d : Byte} (ha : 0xf0 ≤ a.toNat) (ha' : a.toNat ≤ 0xf4)
      (hb : continuation.contains b) (low : a.toNat = 0xf0 → 0x90 ≤ b.toNat)
      (high : a.toNat = 0xf4 → b.toNat ≤ 0x8f) (hc : continuation.contains c)
      (hd : continuation.contains d) : Shape a [b, c, d]

theorem shape_of_fits {lead : Byte} {ranges : List ByteRange} {tail : List Byte}
    (h : followers lead = some ranges) (ht : Fits ranges tail) : Shape lead tail := by
  unfold followers at h
  simp only [UInt8.lt_iff_toNat_lt, ← UInt8.toNat_inj, UInt8.reduceToNat] at h
  split_ifs at h <;> cases h <;>
    simp only [Fits, List.forall₂_cons_left_iff, List.forall₂_nil_left_iff] at ht
  · subst ht
    exact .one (by omega)
  · obtain ⟨b, _, hb, rfl, rfl⟩ := ht
    exact .two (by omega) (by omega) hb
  all_goals
    obtain ⟨b, _, hb, ⟨c, _, hc, ht, rfl⟩, rfl⟩ := ht
    have hr := (ByteRange.contains_iff _ b).1 hb
    simp only [continuation, UInt8.reduceToNat] at hr
    have hb' := (continuation_contains_iff b).2 (by omega)
  · subst ht
    exact .three (by omega) (by omega) hb' (by omega) (by omega) hc
  · subst ht
    exact .three (by omega) (by omega) hb' (by omega) (by omega) hc
  · subst ht
    exact .three (by omega) (by omega) hb' (by omega) (by omega) hc
  · obtain ⟨d, _, hd, rfl, rfl⟩ := ht
    exact .four (by omega) (by omega) hb' (by omega) (by omega) hc hd
  · obtain ⟨d, _, hd, rfl, rfl⟩ := ht
    exact .four (by omega) (by omega) hb' (by omega) (by omega) hc hd
  · obtain ⟨d, _, hd, rfl, rfl⟩ := ht
    exact .four (by omega) (by omega) hb' (by omega) (by omega) hc hd

theorem Shape.encodeChar {lead : Byte} {tail : List Byte} (h : Shape lead tail) :
    utf8EncodeChar (Char.ofNat (codePoint lead tail)) = lead :: tail := by
  cases h with
  | one ha => exact encodeChar_one ha
  | two ha ha' hb => exact encodeChar_two ha ha' hb
  | three ha ha' hb low high hc => exact encodeChar_three ha ha' hb low high hc
  | four ha ha' hb low high hc hd => exact encodeChar_four ha ha' hb low high hc hd

/-- Bytes that fit the table are the encoding of the character they are read as. -/
theorem encodeChar_codePoint {lead : Byte} {ranges : List ByteRange} {tail : List Byte}
    (h : followers lead = some ranges) (ht : Fits ranges tail) :
    utf8EncodeChar (Char.ofNat (codePoint lead tail)) = lead :: tail :=
  (shape_of_fits h ht).encodeChar

theorem toNat_val_bound (c : Char) :
    c.val.toNat < 0xd800 ∨ 0xdfff < c.val.toNat ∧ c.val.toNat < 0x110000 := c.valid

private theorem exists_fits_three {a b c : Byte} (ha : 0xe0 ≤ a.toNat) (ha' : a.toNat < 0xf0)
    (hb : 0x80 ≤ b.toNat ∧ b.toNat ≤ 0xbf) (low : a.toNat = 0xe0 → 0xa0 ≤ b.toNat)
    (high : a.toNat = 0xed → b.toNat ≤ 0x9f) (hc : continuation.contains c) :
    ∃ ranges, followers a = some ranges ∧ Fits ranges [b, c] := by
  simp only [followers, UInt8.lt_iff_toNat_lt, ← UInt8.toNat_inj, UInt8.reduceToNat]
  rw [if_neg (by omega), if_neg (by omega), if_neg (by omega)]
  split_ifs
  all_goals
    refine ⟨_, rfl, .cons ?_ (.cons hc .nil)⟩
    rw [ByteRange.contains_iff]
    simp only [continuation, UInt8.reduceToNat]
    omega

private theorem exists_fits_four {a b c d : Byte} (ha : 0xf0 ≤ a.toNat) (ha' : a.toNat ≤ 0xf4)
    (hb : 0x80 ≤ b.toNat ∧ b.toNat ≤ 0xbf) (low : a.toNat = 0xf0 → 0x90 ≤ b.toNat)
    (high : a.toNat = 0xf4 → b.toNat ≤ 0x8f) (hc : continuation.contains c)
    (hd : continuation.contains d) :
    ∃ ranges, followers a = some ranges ∧ Fits ranges [b, c, d] := by
  simp only [followers, UInt8.lt_iff_toNat_lt, ← UInt8.toNat_inj, UInt8.reduceToNat]
  rw [if_neg (by omega), if_neg (by omega), if_neg (by omega), if_neg (by omega),
    if_neg (by omega), if_neg (by omega)]
  split_ifs
  case neg => omega
  all_goals
    refine ⟨_, rfl, .cons ?_ (.cons hc (.cons hd .nil))⟩
    rw [ByteRange.contains_iff]
    simp only [continuation, UInt8.reduceToNat]
    omega

theorem exists_fits_encodeChar (c : Char) :
    ∃ lead ranges tail, utf8EncodeChar c = lead :: tail ∧ followers lead = some ranges ∧
      Fits ranges tail ∧ Char.ofNat (codePoint lead tail) = c := by
  have hv := toNat_val_bound c
  have hc : ∀ n, n = c.val.toNat → Char.ofNat n = c := by
    rintro n rfl
    exact Char.ofNat_toNat c
  have within (n : Nat) : continuation.contains (UInt8.ofNat (n % 64 + 0x80)) = true := by
    rw [continuation_contains_iff, UInt8.toNat_ofNat']
    omega
  unfold utf8EncodeChar
  dsimp only
  generalize c.val.toNat = v at *
  split_ifs with h1 h2 h3
  · refine ⟨_, [], _, rfl, ?_, .nil, hc _ ?_⟩
    · rw [followers, if_pos]
      simp only [UInt8.lt_iff_toNat_lt, UInt8.toNat_ofNat', UInt8.reduceToNat]
      omega
    · simp [codePoint, leadBits]
      omega
  · refine ⟨_, [continuation], _, rfl, ?_, .cons (within _) .nil, hc _ ?_⟩
    · simp only [followers, UInt8.lt_iff_toNat_lt, UInt8.toNat_ofNat', UInt8.reduceToNat]
      rw [if_neg (by omega), if_neg (by omega), if_pos (by omega)]
    · simp [codePoint, leadBits]
      omega
  · obtain ⟨ranges, hr, hf⟩ := exists_fits_three (a := UInt8.ofNat (v / 4096 % 16 + 0xe0))
      (b := UInt8.ofNat (v / 64 % 64 + 0x80)) (c := UInt8.ofNat (v % 64 + 0x80))
      (by simp; omega) (by simp; omega) (by simp; omega) (by simp; omega) (by simp; omega)
      (within v)
    refine ⟨_, ranges, _, rfl, hr, hf, hc _ ?_⟩
    simp [codePoint, leadBits]
    omega
  · obtain ⟨ranges, hr, hf⟩ := exists_fits_four (a := UInt8.ofNat (v / 262144 % 8 + 0xf0))
      (b := UInt8.ofNat (v / 4096 % 64 + 0x80)) (c := UInt8.ofNat (v / 64 % 64 + 0x80))
      (d := UInt8.ofNat (v % 64 + 0x80)) (by simp; omega) (by simp; omega) (by simp; omega)
      (by simp; omega) (by simp; omega) (within _) (within v)
    refine ⟨_, ranges, _, rfl, hr, hf, hc _ ?_⟩
    simp [codePoint, leadBits]
    omega

theorem firstPiece_encodeChar {c : Char} {lead : Byte} {tail : List Byte}
    (h : utf8EncodeChar c = lead :: tail) (rest : List Byte) :
    firstPiece lead (tail ++ rest) = .char c (tail.length + 1) := by
  obtain ⟨lead', ranges, tail', hc, hr, hf, hp⟩ := exists_fits_encodeChar c
  rw [hc] at h
  obtain ⟨rfl, rfl⟩ := List.cons.inj h
  have hlen := hf.length_eq
  simp only [firstPiece, hr, fitting_append hf rest, ↓reduceIte]
  rw [hlen, List.take_left, hp]

theorem encodeChar_of_firstPiece {lead : Byte} {tail : List Byte} {c : Char} {width : Nat}
    (h : firstPiece lead tail = .char c width) :
    utf8EncodeChar c = (lead :: tail).take width ∧ width ≤ (lead :: tail).length := by
  refine ⟨?_, by simpa [h, Piece.width] using width_firstPiece_le lead tail⟩
  unfold firstPiece at h
  cases hr : followers lead with
  | none => simp [hr] at h
  | some ranges =>
    simp only [hr] at h
    split_ifs at h with hfit
    injection h with hchar hwidth
    rw [← hchar, ← hwidth, List.take_succ_cons]
    apply encodeChar_codePoint hr
    rw [hfit]
    exact fits_take_of_fitting hfit

/-- An ill-formed piece stays ill-formed when bytes behind it are taken away. -/
theorem firstPiece_broken_of_append {lead : Byte} {front rest : List Byte} {width : Nat}
    (h : firstPiece lead (front ++ rest) = .broken width) :
    ∃ width', firstPiece lead front = .broken width' := by
  unfold firstPiece at h ⊢
  cases hr : followers lead with
  | none => exact ⟨1, rfl⟩
  | some ranges =>
    simp only [hr] at h ⊢
    by_cases hfit : fitting ranges front = ranges.length
    · have hf := fitting_append (fits_take_of_fitting hfit) (front.drop ranges.length ++ rest)
      rw [← List.append_assoc, List.take_append_drop] at hf
      simp [hf] at h
    · exact ⟨_, if_neg hfit⟩

/-- Bytes begin with an encoded character or with an ill-formed piece. -/
theorem front_cases (lead : Byte) (tail : List Byte) :
    (∃ c rest, lead :: tail = utf8EncodeChar c ++ rest) ∨
      ∃ width, firstPiece lead tail = .broken width := by
  cases h : firstPiece lead tail with
  | char c width =>
    refine .inl ⟨c, (lead :: tail).drop width, ?_⟩
    rw [(encodeChar_of_firstPiece h).1, List.take_append_drop]
  | broken width => exact .inr ⟨width, rfl⟩

theorem length_encodeChar_pos (c : Char) : 0 < (utf8EncodeChar c).length :=
  List.length_pos_of_ne_nil String.utf8EncodeChar_ne_nil

@[elab_as_elim]
theorem front_induction {motive : List Byte → Prop} (nil : motive [])
    (char : ∀ c rest, motive rest → motive (utf8EncodeChar c ++ rest))
    (broken : ∀ lead tail width, firstPiece lead tail = .broken width → motive (lead :: tail))
    (bytes : List Byte) : motive bytes := by
  induction hn : bytes.length using Nat.strongRecOn generalizing bytes with
  | ind n ih =>
    match bytes with
    | [] => exact nil
    | lead :: tail =>
      rcases front_cases lead tail with ⟨c, rest, hc⟩ | ⟨width, hw⟩
      · have hpos := length_encodeChar_pos c
        have hlen := congrArg List.length hc
        rw [hn, List.length_append] at hlen
        rw [hc]
        exact char c rest (ih rest.length (by omega) rest rfl)
      · exact broken lead tail width hw

theorem charactersFrom_add (n k : Nat) (ps : List Piece) :
    charactersFrom (n + k) ps = (charactersFrom k ps).mapError (n + ·) := by
  induction ps generalizing k with
  | nil => rfl
  | cons p ps ih =>
    cases p with
    | char c width =>
      simp only [charactersFrom, Nat.add_assoc, ih]
      cases charactersFrom (k + width) ps <;> rfl
    | broken width => rfl

@[simp] theorem decode_nil : decode [] = .ok [] := by
  rw [decode, pieces_nil, charactersFrom]

theorem decode_encodeChar_append (c : Char) (rest : List Byte) :
    decode (utf8EncodeChar c ++ rest) =
      ((decode rest).mapError (c.utf8Size + ·)).map (c :: ·) := by
  obtain ⟨lead, tail, h⟩ := List.exists_cons_of_ne_nil (String.utf8EncodeChar_ne_nil (c := c))
  have hlen : c.utf8Size = tail.length + 1 := by
    rw [← String.length_utf8EncodeChar, h, List.length_cons]
  have hdrop : (lead :: (tail ++ rest)).drop (tail.length + 1) = rest := by simp
  rw [h, List.cons_append, decode, pieces_cons, firstPiece_encodeChar h rest, Piece.width, hdrop,
    charactersFrom, Nat.zero_add, hlen, decode]
  rw [← charactersFrom_add (tail.length + 1) 0, Nat.add_zero]

theorem decode_broken {lead : Byte} {tail : List Byte} {width : Nat}
    (h : firstPiece lead tail = .broken width) : decode (lead :: tail) = .error 0 := by
  rw [decode, pieces_cons, h, charactersFrom]

theorem encode_cons (c : Char) (text : List Char) :
    encode (c :: text) = utf8EncodeChar c ++ encode text := rfl

theorem decode_encode (text : List Char) : decode (encode text) = .ok text := by
  induction text with
  | nil => exact decode_nil
  | cons c text ih =>
    rw [encode_cons, decode_encodeChar_append, ih]
    rfl

theorem eq_encode_of_decode {bytes : List Byte} {text : List Char} (h : decode bytes = .ok text) :
    bytes = encode text := by
  induction bytes using front_induction generalizing text with
  | nil =>
    rw [decode_nil] at h
    cases h
    rfl
  | char c rest ih =>
    rw [decode_encodeChar_append] at h
    cases hd : decode rest with
    | error k => simp [hd, Except.mapError, Except.map] at h
    | ok more =>
      simp only [hd, Except.mapError, Except.map, Except.ok.injEq] at h
      rw [← h, encode_cons, ← ih hd]
  | broken lead tail width hw =>
    rw [decode_broken hw] at h
    cases h

theorem exists_broken_of_decode {bytes : List Byte} {k : Nat} (h : decode bytes = .error k) :
    ∃ text lead tail width, bytes = encode text ++ lead :: tail ∧ k = (encode text).length ∧
      firstPiece lead tail = .broken width := by
  induction bytes using front_induction generalizing k with
  | nil =>
    rw [decode_nil] at h
    cases h
  | char c rest ih =>
    rw [decode_encodeChar_append] at h
    cases hd : decode rest with
    | ok more => simp [hd, Except.mapError, Except.map] at h
    | error j =>
      simp only [hd, Except.mapError, Except.map, Except.error.injEq] at h
      obtain ⟨text, lead, tail, width, rfl, hj, hw⟩ := ih hd
      refine ⟨c :: text, lead, tail, width, ?_, ?_, hw⟩
      · rw [encode_cons, List.append_assoc]
      · rw [← h, hj, encode_cons, List.length_append, String.length_utf8EncodeChar]
  | broken lead tail width hw =>
    rw [decode_broken hw] at h
    cases h
    exact ⟨[], lead, tail, width, rfl, rfl, hw⟩

theorem take_eq_encode_of_decode {bytes : List Byte} {k : Nat} (h : decode bytes = .error k) :
    k < bytes.length ∧ ∃ text, bytes.take k = encode text := by
  obtain ⟨text, lead, tail, width, rfl, rfl, -⟩ := exists_broken_of_decode h
  exact ⟨by simp, text, List.take_left⟩

theorem encode_append (front rest : List Char) :
    encode (front ++ rest) = encode front ++ encode rest := List.flatMap_append

theorem encode_injective : Function.Injective encode := by
  intro text text' h
  have hdecode := decode_encode text
  rw [h, decode_encode] at hdecode
  exact (Except.ok.inj hdecode).symm

/-! Well-formed bytes. -/

/-- The bytes encode some text. -/
def WellFormed (bytes : List Byte) : Prop := ∃ text, bytes = encode text

theorem wellFormed_iff_decode {bytes : List Byte} :
    WellFormed bytes ↔ ∃ text, decode bytes = .ok text := by
  constructor
  · rintro ⟨text, rfl⟩
    exact ⟨text, decode_encode text⟩
  · rintro ⟨text, h⟩
    exact ⟨text, eq_encode_of_decode h⟩

theorem wellFormed_nil : WellFormed [] := ⟨[], rfl⟩

theorem wellFormed_encodeChar (c : Char) : WellFormed (utf8EncodeChar c) :=
  ⟨[c], by simp [encode]⟩

theorem WellFormed.append {front rest : List Byte} (hfront : WellFormed front)
    (hrest : WellFormed rest) : WellFormed (front ++ rest) := by
  obtain ⟨text, rfl⟩ := hfront
  obtain ⟨more, rfl⟩ := hrest
  exact ⟨text ++ more, (encode_append text more).symm⟩

/-- Behind a well-formed front, well-formed bytes go on well formed. -/
theorem WellFormed.of_append {front rest : List Byte} (hfront : WellFormed front)
    (h : WellFormed (front ++ rest)) : WellFormed rest := by
  obtain ⟨text, rfl⟩ := hfront
  induction text with
  | nil => exact h
  | cons c text ih =>
    apply ih
    rw [encode_cons, List.append_assoc, wellFormed_iff_decode, decode_encodeChar_append] at h
    obtain ⟨decoded, hdecoded⟩ := h
    cases hmore : decode (encode text ++ rest) with
    | ok more => exact wellFormed_iff_decode.2 ⟨more, hmore⟩
    | error k => simp [hmore, Except.mapError, Except.map] at hdecoded

theorem WellFormed.cons {b : Byte} (hb : b < 0x80) {bytes : List Byte} (h : WellFormed bytes) :
    WellFormed (b :: bytes) := by
  have hpiece : firstPiece b [] = .char (Char.ofNat (codePoint b [])) 1 := by
    simp [firstPiece, followers, hb, fitting]
  have hchar := (encodeChar_of_firstPiece hpiece).1
  rw [← List.singleton_append]
  exact WellFormed.append ⟨[_], by simpa [encode] using hchar.symm⟩ h

theorem wellFormed_of_ascii {bytes : List Byte} (h : ∀ b ∈ bytes, b < 0x80) :
    WellFormed bytes := by
  induction bytes with
  | nil => exact wellFormed_nil
  | cons b bytes ih =>
    rw [List.forall_mem_cons] at h
    exact .cons h.1 (ih h.2)

end LocatedJson.Utf8
