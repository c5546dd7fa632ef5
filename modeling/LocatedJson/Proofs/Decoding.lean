import LocatedJson.Proofs.Pieces

/-! The two decoders. Both take the same pieces from the bytes, and the strict one ends where the
other one writes its first replacement. What is well formed for them is what the bits of the bytes
say. They part behind the longest well-formed front, and what is replaced there is as much as a
character could begin with. -/
namespace LocatedJson.Utf8

open String (utf8EncodeChar)

/-! Well-formed bytes by their bits. -/

/-- How many bytes are to follow a lead byte, by its upper bits. -/
def announced (lead : Byte) : Option Nat :=
  if lead < 0x80 then some 0
  else if lead < 0xc0 then none
  else if lead < 0xe0 then some 1
  else if lead < 0xf0 then some 2
  else if lead < 0xf8 then some 3
  else none

def firstNeeding : Nat → Nat
  | 0 => 0
  | 1 => 0x80
  | 2 => 0x800
  | _ => 0x10000

/-- The bytes hold the bits of a character's code point, and no fewer bytes could. -/
structure HoldsCharacter (lead : Byte) (tail : List Byte) : Prop where
  announces : announced lead = some tail.length
  continues : ∀ b ∈ tail, continuation.contains b = true
  not_overlong : firstNeeding tail.length ≤ codePoint lead tail
  not_surrogate : ¬ (0xd800 ≤ codePoint lead tail ∧ codePoint lead tail ≤ 0xdfff)
  le_last : codePoint lead tail ≤ 0x10ffff

inductive HoldsText : List Byte → Prop where
  | nil : HoldsText []
  | cons {lead : Byte} {tail rest : List Byte} (first : HoldsCharacter lead tail)
      (behind : HoldsText rest) : HoldsText (lead :: tail ++ rest)

theorem announced_eq_some_iff {lead : Byte} {n : Nat} :
    announced lead = some n ↔
      n = 0 ∧ lead.toNat < 0x80 ∨ n = 1 ∧ 0xc0 ≤ lead.toNat ∧ lead.toNat < 0xe0 ∨
        n = 2 ∧ 0xe0 ≤ lead.toNat ∧ lead.toNat < 0xf0 ∨
        n = 3 ∧ 0xf0 ≤ lead.toNat ∧ lead.toNat < 0xf8 := by
  simp only [announced, UInt8.lt_iff_toNat_lt, UInt8.reduceToNat]
  split_ifs <;> grind

/-- The ranges of the table keep out no more than overlong forms, surrogates and what is above the
last code point. -/
theorem HoldsCharacter.shape {lead : Byte} {tail : List Byte} (h : HoldsCharacter lead tail) :
    Shape lead tail := by
  obtain ⟨hannounced, hcontinues, hlong, hsurrogate, hlast⟩ := h
  rw [announced_eq_some_iff] at hannounced
  have hbounds (b : Byte) (hb : b ∈ tail) := (continuation_contains_iff b).1 (hcontinues b hb)
  -- by the number of bytes, as the bounds of the code point are bounds of its upper groups of bits
  match tail with
  | [] => exact .one (by simpa using hannounced)
  | [b] =>
    simp only [codePoint_two, List.length_cons, List.length_nil, firstNeeding] at hannounced hlong
    exact .two (by omega) (by omega) (hcontinues b (by simp))
  | [b, c] =>
    have hb := hbounds b (by simp)
    simp only [codePoint_three, List.length_cons, List.length_nil, firstNeeding]
      at hannounced hlong hsurrogate
    exact .three (by omega) (by omega) (hcontinues b (by simp)) (by omega) (by omega)
      (hcontinues c (by simp))
  | [b, c, d] =>
    have hb := hbounds b (by simp)
    simp only [codePoint_four, List.length_cons, List.length_nil, firstNeeding]
      at hannounced hlong hlast
    exact .four (by omega) (by omega) (hcontinues b (by simp)) (by omega) (by omega)
      (hcontinues c (by simp)) (hcontinues d (by simp))
  | _ :: _ :: _ :: _ :: _ =>
    simp only [List.length_cons] at hannounced
    omega

theorem Shape.holdsCharacter {lead : Byte} {tail : List Byte} (h : Shape lead tail) :
    HoldsCharacter lead tail := by
  cases h with
  | one ha =>
    refine ⟨announced_eq_some_iff.2 (by simpa using ha), by simp, ?_, ?_, ?_⟩ <;>
      simp only [codePoint_ascii, List.length_nil, firstNeeding] <;> omega
  | two ha ha' hb =>
    refine ⟨announced_eq_some_iff.2 (by simp; omega), by simpa using hb, ?_, ?_, ?_⟩ <;>
      simp only [codePoint_two, List.length_cons, List.length_nil, firstNeeding] <;> omega
  | three ha ha' hb low high hc =>
    have hbounds := (continuation_contains_iff _).1 hb
    refine ⟨announced_eq_some_iff.2 (by simp; omega), by simp [hb, hc], ?_, ?_, ?_⟩ <;>
      simp only [codePoint_three, List.length_cons, List.length_nil, firstNeeding] <;> omega
  | four ha ha' hb low high hc hd =>
    have hbounds := (continuation_contains_iff _).1 hb
    refine ⟨announced_eq_some_iff.2 (by simp; omega), by simp [hb, hc, hd], ?_, ?_, ?_⟩ <;>
      simp only [codePoint_four, List.length_cons, List.length_nil, firstNeeding] <;> omega

theorem holdsCharacter_iff {lead : Byte} {tail : List Byte} :
    HoldsCharacter lead tail ↔ ∃ c, utf8EncodeChar c = lead :: tail := by
  constructor
  · intro h
    exact ⟨_, h.shape.encodeChar⟩
  · rintro ⟨c, hc⟩
    obtain ⟨lead', ranges, tail', hc', hranges, hfits, -⟩ := exists_fits_encodeChar c
    rw [hc'] at hc
    obtain ⟨rfl, rfl⟩ := List.cons.inj hc
    exact (shape_of_fits hranges hfits).holdsCharacter

theorem wellFormed_iff_holdsText {bytes : List Byte} : WellFormed bytes ↔ HoldsText bytes := by
  constructor
  · rintro ⟨text, rfl⟩
    induction text with
    | nil => exact .nil
    | cons c text ih =>
      obtain ⟨lead, tail, hc⟩ := List.exists_cons_of_ne_nil (String.utf8EncodeChar_ne_nil (c := c))
      rw [encode_cons, hc]
      exact .cons (holdsCharacter_iff.2 ⟨c, hc⟩) ih
  · intro h
    induction h with
    | nil => exact wellFormed_nil
    | cons first _ ih =>
      obtain ⟨c, hc⟩ := holdsCharacter_iff.1 first
      rw [← hc]
      exact (wellFormed_encodeChar c).append ih

/-! Where strict decoding ends. -/

theorem not_wellFormed_of_broken {lead : Byte} {tail : List Byte} {width : Nat}
    (h : firstPiece lead tail = .broken width) : ¬ WellFormed (lead :: tail) := by
  rw [wellFormed_iff_decode, decode_broken h]
  nofun

theorem isGreatest_of_decode {bytes : List Byte} {k : Nat} (h : decode bytes = .error k) :
    IsGreatest {n | n ≤ bytes.length ∧ WellFormed (bytes.take n)} k := by
  obtain ⟨text, lead, tail, width, rfl, rfl, hbroken⟩ := exists_broken_of_decode h
  refine ⟨⟨by simp, text, List.take_left⟩, ?_⟩
  rintro n ⟨-, hfront⟩
  by_contra hlt
  obtain ⟨m, rfl⟩ := Nat.exists_eq_add_of_lt (Nat.lt_of_not_le hlt)
  -- cut anywhere behind its lead byte, the piece is still ill-formed
  rw [← List.take_append_drop m tail] at hbroken
  obtain ⟨width', hcut⟩ := firstPiece_broken_of_append hbroken
  rw [Nat.add_assoc, List.take_length_add_append, List.take_succ_cons] at hfront
  exact not_wellFormed_of_broken hcut (WellFormed.of_append ⟨text, rfl⟩ hfront)

/-! What is replaced. -/

/-- The bytes have a part of this length at their front, a single byte or bytes that a character can
begin with, and none that is longer. -/
def MaximalPart (bytes : List Byte) (width : Nat) : Prop :=
  IsGreatest {n | n ≤ bytes.length ∧ (n = 1 ∨ ∃ c, bytes.take n <+: utf8EncodeChar c)} width

theorem contains_low_of_mem_followers {lead : Byte} {ranges : List ByteRange}
    (h : followers lead = some ranges) : ∀ r ∈ ranges, r.contains r.low = true := by
  unfold followers at h
  split_ifs at h <;> cases h <;> simp [continuation, ByteRange.contains]

theorem exists_fits_front {ranges : List ByteRange} (h : ∀ r ∈ ranges, r.contains r.low = true)
    (bytes : List Byte) : ∃ more, Fits ranges (bytes.take (fitting ranges bytes) ++ more) := by
  have hlow (ranges : List ByteRange) (h : ∀ r ∈ ranges, r.contains r.low = true) :
      Fits ranges (ranges.map (·.low)) :=
    List.forall₂_map_right_iff.2 (List.forall₂_same.2 h)
  fun_induction fitting ranges bytes with
  | case1 r ranges b bytes hb ih =>
    obtain ⟨more, hmore⟩ := ih (List.forall_mem_cons.1 h).2
    exact ⟨more, .cons hb hmore⟩
  | case2 r ranges b bytes hb => exact ⟨_, hlow _ h⟩
  | case3 ranges bytes _ => exact ⟨_, hlow _ h⟩

theorem length_le_fitting {ranges : List ByteRange} {bytes front : List Byte}
    (h : Fits ranges bytes) (hfront : front <+: bytes) (rest : List Byte) :
    front.length ≤ fitting ranges (front ++ rest) := by
  induction h generalizing front with
  | nil => simp [List.prefix_nil.1 hfront]
  | @cons r b ranges bytes hb _ ih =>
    cases front with
    | nil => exact Nat.zero_le _
    | cons b' front =>
      obtain ⟨rfl, hbehind⟩ := List.cons_prefix_cons.1 hfront
      simp only [List.cons_append, fitting, hb, ↓reduceIte, List.length_cons]
      exact Nat.succ_le_succ (ih hbehind)

/-- A character can begin with a lead byte and the bytes behind it that fit, and with no more. -/
theorem exists_encodeChar_prefix_iff {lead : Byte} {tail : List Byte} {n : Nat}
    (hn : n ≤ tail.length) :
    (∃ c, lead :: tail.take n <+: utf8EncodeChar c) ↔
      ∃ ranges, followers lead = some ranges ∧ n ≤ fitting ranges tail := by
  constructor
  · rintro ⟨c, hc⟩
    obtain ⟨lead', ranges, tail', hchar, hranges, hfits, -⟩ := exists_fits_encodeChar c
    rw [hchar, List.cons_prefix_cons] at hc
    obtain ⟨rfl, hfront⟩ := hc
    have hlength := length_le_fitting hfits hfront (tail.drop n)
    rw [List.take_append_drop, List.length_take_of_le hn] at hlength
    exact ⟨ranges, hranges, hlength⟩
  · rintro ⟨ranges, hranges, hle⟩
    obtain ⟨more, hmore⟩ := exists_fits_front (contains_low_of_mem_followers hranges) tail
    refine ⟨Char.ofNat (codePoint lead (tail.take (fitting ranges tail) ++ more)), ?_⟩
    rw [encodeChar_codePoint hranges hmore, List.cons_prefix_cons]
    exact ⟨rfl, (List.take_prefix_take_left hle).trans (List.prefix_append _ _)⟩

theorem broken_cases {lead : Byte} {tail : List Byte} {width : Nat}
    (h : firstPiece lead tail = .broken width) :
    followers lead = none ∧ width = 1 ∨
      ∃ ranges, followers lead = some ranges ∧ width = fitting ranges tail + 1 := by
  unfold firstPiece at h
  cases hranges : followers lead with
  | none =>
    rw [hranges] at h
    cases h
    exact .inl ⟨rfl, rfl⟩
  | some ranges =>
    simp only [hranges] at h
    split_ifs at h
    cases h
    exact .inr ⟨ranges, rfl, rfl⟩

theorem maximalPart_of_broken {lead : Byte} {tail : List Byte} {width : Nat}
    (h : firstPiece lead tail = .broken width) : MaximalPart (lead :: tail) width := by
  have hpos := width_firstPiece_pos lead tail
  have hle := width_firstPiece_le lead tail
  rw [h, Piece.width] at hpos hle
  refine ⟨⟨hle, ?_⟩, ?_⟩
  · rcases broken_cases h with ⟨-, rfl⟩ | ⟨ranges, hranges, rfl⟩
    · exact .inl rfl
    · exact .inr ((exists_encodeChar_prefix_iff (fitting_le ranges tail)).2
        ⟨ranges, hranges, Nat.le_refl _⟩)
  · rintro n ⟨hn, rfl | hchar⟩
    · exact hpos
    · cases n with
      | zero => exact Nat.zero_le _
      | succ n =>
        obtain ⟨ranges, hranges, hlength⟩ :=
          (exists_encodeChar_prefix_iff (Nat.le_of_succ_le_succ hn)).1 hchar
        rcases broken_cases h with ⟨hnone, -⟩ | ⟨ranges', hranges', rfl⟩
        · rw [hnone] at hranges
          cases hranges
        · obtain rfl := Option.some.inj (hranges.symm.trans hranges')
          exact Nat.succ_le_succ hlength

theorem decodeReplacing_of_decode {bytes : List Byte} {k : Nat} (h : decode bytes = .error k) :
    ∃ text width, decode (bytes.take k) = .ok text ∧ MaximalPart (bytes.drop k) width ∧
      decodeReplacing bytes =
        text ++ replacement :: decodeReplacing (bytes.drop (k + width)) := by
  obtain ⟨text, lead, tail, width, rfl, rfl, hbroken⟩ := exists_broken_of_decode h
  refine ⟨text, width, ?_, ?_, ?_⟩
  · rw [List.take_left, decode_encode]
  · rw [List.drop_left]
    exact maximalPart_of_broken hbroken
  · rw [decodeReplacing_encode_append, decodeReplacing_cons, hbroken, List.drop_length_add_append]
    rfl

/-- Strict decoding succeeds on well-formed bytes and on no others, and there the decoders agree.
Otherwise it fails behind the longest well-formed front, where a string with these bytes as its run
is refused too, and the other decoder writes the text of that front, a replacement for the longest
part behind it, and what the bytes behind that part are decoded to. What a text is stored as is
decoded to the text. -/
theorem decoders_agree (bytes : List Byte) :
    ((∃ text, decode bytes = .ok text) ↔ WellFormed bytes) ∧
    (WellFormed bytes ↔ HoldsText bytes) ∧
    (∀ text, decode bytes = .ok text → decodeReplacing bytes = text) ∧
    (∀ k, decode bytes = .error k →
      IsGreatest {n | n ≤ bytes.length ∧ WellFormed (bytes.take n)} k ∧
      (∀ quote ahead, ahead.takeWhile (StringLiteral.isPlain quote) = bytes →
        StringLiteral.scanBody quote ahead = .error ⟨.invalidUtf8, k, 0⟩) ∧
      ∃ text width, decode (bytes.take k) = .ok text ∧ MaximalPart (bytes.drop k) width ∧
        decodeReplacing bytes =
          text ++ replacement :: decodeReplacing (bytes.drop (k + width))) ∧
    ∀ name text : String,
      (Source.ofText name text).contents.map (fun c => decode c.text) = some (.ok text.toList) := by
  refine ⟨wellFormed_iff_decode.symm, wellFormed_iff_holdsText, ?_, ?_, ?_⟩
  · intro text h
    rw [eq_encode_of_decode h, decodeReplacing_encode]
  · intro k h
    refine ⟨isGreatest_of_decode h, ?_, decodeReplacing_of_decode h⟩
    rintro quote ahead rfl
    rw [StringLiteral.scanBody_eq, h]
  · intro name text
    have hcontents : (Source.ofText name text).contents =
        some (.ofBytes (encode text.toList)) := rfl
    rw [hcontents, Option.map_some, Contents.text_ofBytes, decode_encode]

def brokenOff : List Byte := [0xc3, 0xa9, 0xe2, 0x82, 0xff, 0x78]

theorem decoders_agree_brokenOff :
    decode brokenOff = .error 2 ∧ decodeReplacing [0xc3, 0xa9] = ['é'] ∧
      IsGreatest {n | n ≤ brokenOff.length ∧ WellFormed (brokenOff.take n)} 2 ∧
      StringLiteral.scanBody Byte.quote (brokenOff ++ [Byte.quote]) =
        .error ⟨.invalidUtf8, 2, 0⟩ ∧
      decodeReplacing brokenOff = 'é' :: replacement :: decodeReplacing [0xff, 0x78] := by
  have hdecode : decode brokenOff = .error 2 := by cbv
  have hfront : decode [0xc3, 0xa9] = .ok ['é'] := by cbv
  obtain ⟨-, -, hsame, -⟩ := decoders_agree [0xc3, 0xa9]
  obtain ⟨-, -, -, hrefused, -⟩ := decoders_agree brokenOff
  obtain ⟨hgreatest, hscan, text, width, htext, hpart, hshown⟩ := hrefused 2 hdecode
  obtain rfl : text = ['é'] := Except.ok.inj (htext.symm.trans hfront)
  obtain rfl : width = 2 := hpart.unique (maximalPart_of_broken (by cbv))
  exact ⟨hdecode, hsame _ hfront, hgreatest, hscan _ _ (by cbv), hshown⟩

end LocatedJson.Utf8
