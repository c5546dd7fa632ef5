import LocatedJson.Proofs.Machine.Numbers
import LocatedJson.Proofs.Parsing.Whole
import LocatedJson.Proofs.Reports

/-! Failures lie between characters. Whatever a scan has gone over is well formed: a run of plain
bytes is decoded before the scan goes on, and all else is ASCII. So the bytes before a failure
encode a text, and the bytes of a text are never called ill formed. -/
namespace LocatedJson

open Grammar
open Utf8 (WellFormed wellFormed_nil wellFormed_of_ascii wellFormed_encodeChar)

/-- The first `k` bytes are there and well formed. -/
structure CleanTo (bytes : List Byte) (k : Nat) : Prop where
  le : k ≤ bytes.length
  wellFormed : WellFormed (bytes.take k)

namespace CleanTo

theorem zero (bytes : List Byte) : CleanTo bytes 0 := ⟨Nat.zero_le _, wellFormed_nil⟩

theorem add {bytes : List Byte} {n k : Nat} (h : CleanTo bytes n)
    (hmore : CleanTo (bytes.drop n) k) : CleanTo bytes (n + k) where
  le := by
    have hle := h.le
    have hmoreLe := hmore.le
    rw [List.length_drop] at hmoreLe
    omega
  wellFormed := by
    rw [List.take_add]
    exact h.wellFormed.append hmore.wellFormed

theorem of_front {front : List Byte} (h : WellFormed front) (rest : List Byte) :
    CleanTo (front ++ rest) front.length where
  le := by simp
  wellFormed := by simpa using h

theorem behind {front rest : List Byte} {k : Nat} (h : WellFormed front) (hrest : CleanTo rest k) :
    CleanTo (front ++ rest) (front.length + k) := by
  apply (of_front h rest).add
  simpa using hrest

theorem append {bytes : List Byte} {k : Nat} (h : CleanTo bytes k) (rest : List Byte) :
    CleanTo (bytes ++ rest) k where
  le := by
    have hle := h.le
    rw [List.length_append]
    omega
  wellFormed := by
    rw [List.take_append_of_le_length h.le]
    exact h.wellFormed

theorem wellFormed_drop {bytes : List Byte} {k : Nat} (h : CleanTo bytes k)
    (hbytes : WellFormed bytes) : WellFormed (bytes.drop k) := by
  apply h.wellFormed.of_append
  rwa [List.take_append_drop]

end CleanTo

/-- How far a scan has come: behind what it has read, or to what it refuses. -/
def Scanned.reach {α : Type} : Scanned α → Nat
  | .ok (_, n) => n
  | .error f => f.offset

/-! Bytes below 0x80. -/

theorem Mark.byte_ascii (m : Mark) : m.byte < 0x80 := by
  cases m <;> decide

theorem Grammar.Quote.byte_ascii (q : Quote) : q.byte < 0x80 := by
  cases q <;> decide

theorem Byte.ascii_of_isBlank {b : Byte} (h : b.isBlank = true) : b < 0x80 := by
  simp only [isBlank, Bool.or_eq_true, beq_iff_eq] at h
  rcases h with ((rfl | rfl) | rfl) | rfl <;> decide

theorem Byte.ascii_of_isHexDigit {b : Byte} (h : b.isHexDigit = true) : b < 0x80 := by
  simp only [UInt8.lt_iff_toNat_lt, UInt8.reduceToNat]
  unfold isHexDigit hexValue? at h
  split_ifs at h with h1 h2 h3
  case neg => cases h
  all_goals
    simp only [isDigit, Bool.and_eq_true, decide_eq_true_eq, UInt8.le_iff_toNat_le,
      UInt8.reduceToNat] at *
    omega

theorem Byte.ascii_of_quote {b : Byte} (h : (b = Byte.quote || b = Byte.apostrophe) = true) :
    b < 0x80 := by
  simp only [Bool.or_eq_true, decide_eq_true_eq] at h
  rcases h with rfl | rfl <;> decide

namespace StringLiteral

theorem ascii_of_not_isPlain {quote b : Byte} (h : isPlain quote b = false) : b < 0x80 := by
  unfold isPlain at h
  simp only [UInt8.lt_iff_toNat_lt, UInt8.reduceToNat]
  by_contra hnot
  have hne (a : Byte) (ha : a.toNat < 128) : b ≠ a := by
    rintro rfl
    exact hnot ha
  have hcontrol : b.isControl = false := by
    simp only [Byte.isControl, Byte.space, decide_eq_false_iff_not, UInt8.lt_iff_toNat_lt,
      UInt8.reduceToNat]
    omega
  have hslash := hne Byte.backslash (by decide)
  have hquote := hne Byte.quote (by decide)
  have hsingle := hne Byte.apostrophe (by decide)
  split_ifs at h <;> simp [hslash, hquote, hsingle, hcontrol] at h

theorem ascii_of_shortEscape? {quote b : Byte} {c : Char} (h : shortEscape? quote b = some c) :
    b < 0x80 := by
  unfold shortEscape? at h
  simp only [Bool.and_eq_true, decide_eq_true_eq] at h
  split_ifs at h with h1 h2 h3 h4 h5 h6 h7 h8 h9
  any_goals (subst b; decide)
  rw [h9.1]
  decide

/-! Strings. -/

theorem wellFormed_hexDigits {digits : List Byte} (h : ∀ b ∈ digits, b.isHexDigit = true) :
    WellFormed digits :=
  wellFormed_of_ascii fun b hb => Byte.ascii_of_isHexDigit (h b hb)

theorem wellFormed_escapeMark : WellFormed [Byte.backslash, Byte.lowerU] :=
  wellFormed_of_ascii (by simp [Byte.backslash, Byte.lowerU])

theorem clean_scanHexDigits (bytes : List Byte) : CleanTo bytes (scanHexDigits bytes).reach := by
  rcases scanHexDigits_cases bytes with ⟨d, rest, rfl⟩ | ⟨cause, k, hbroken⟩
  · have hclean := CleanTo.of_front (wellFormed_hexDigits d.hex) rest
    rw [d.length_eq] at hclean
    rw [scanHexDigits_append]
    exact hclean
  · obtain ⟨stop, hf⟩ := hbroken.scanHexDigits
    obtain ⟨front, rest, rfl, -, hhex, rfl⟩ := hbroken.exists_front
    rw [hf]
    exact .of_front (wellFormed_hexDigits hhex) rest

theorem clean_scanLowSurrogate (high : Nat) (bytes : List Byte) :
    CleanTo bytes (scanLowSurrogate high bytes).reach := by
  by_cases hescape : ∃ rest, bytes = Byte.backslash :: Byte.lowerU :: rest
  · obtain ⟨rest, rfl⟩ := hescape
    have hdigits := CleanTo.behind wellFormed_escapeMark (clean_scanHexDigits rest)
    rw [scanLowSurrogate_escape]
    cases hhex : scanHexDigits rest with
    | error f =>
      rw [hhex] at hdigits
      exact hdigits
    | ok result =>
      rw [hhex] at hdigits
      dsimp only
      split
      · exact hdigits
      · exact .zero _
  · rw [scanLowSurrogate_of_no_escape fun rest h => hescape ⟨rest, h⟩]
    exact .zero _

theorem clean_codeEscape (quote : Byte) (rest : List Byte) :
    CleanTo (Byte.backslash :: Byte.lowerU :: rest)
      (scanEscape quote (Byte.lowerU :: rest)).reach := by
  have hdigits := CleanTo.behind wellFormed_escapeMark (clean_scanHexDigits rest)
  rw [scanEscape_lowerU]
  cases hhex : scanHexDigits rest with
  | error f =>
    rw [hhex] at hdigits
    exact hdigits
  | ok result =>
    obtain ⟨n, width⟩ := result
    rw [hhex] at hdigits
    have hlow : CleanTo ((Byte.backslash :: Byte.lowerU :: rest).drop (2 + width))
        (scanLowSurrogate n (rest.drop width)).reach := by
      rw [Nat.add_comm]
      exact clean_scanLowSurrogate n _
    dsimp only
    split
    · exact .zero _
    · split
      · cases hpair : scanLowSurrogate n (rest.drop width) with
        | error f =>
          rw [hpair] at hlow
          exact hdigits.add hlow
        | ok result =>
          rw [hpair] at hlow
          exact hdigits.add hlow
      · exact hdigits

theorem clean_scanEscape (quote : Byte) (rest : List Byte) :
    CleanTo (Byte.backslash :: rest) (scanEscape quote rest).reach := by
  have hslash : WellFormed [Byte.backslash] := wellFormed_of_ascii (by simp [Byte.backslash])
  cases rest with
  | nil => exact .of_front hslash []
  | cons b rest =>
    by_cases hb : b = Byte.lowerU
    · rw [hb]
      exact clean_codeEscape quote rest
    · rw [scanEscape_of_ne hb]
      cases hshort : shortEscape? quote b with
      | none => exact .of_front hslash (b :: rest)
      | some c =>
        have hpair : WellFormed [Byte.backslash, b] :=
          hslash.append (.cons (ascii_of_shortEscape? hshort) wellFormed_nil)
        exact .of_front hpair rest

theorem width_pos_of_scanEscape {quote : Byte} {rest : List Byte} {c : Char} {width : Nat}
    (h : scanEscape quote rest = .ok (c, width)) : 0 < width := by
  unfold scanEscape at h
  repeat' split at h
  all_goals cases h
  all_goals omega

theorem clean_run {quote : Byte} {bytes : List Byte} {text : List Char}
    (h : Utf8.decode (bytes.takeWhile (isPlain quote)) = .ok text) :
    CleanTo bytes (bytes.takeWhile (isPlain quote)).length := by
  have hclean := CleanTo.of_front (Utf8.wellFormed_iff_decode.2 ⟨text, h⟩)
    (bytes.dropWhile (isPlain quote))
  rwa [List.takeWhile_append_dropWhile] at hclean

theorem clean_escaped {quote : Byte} {bytes rest : List Byte} {text : List Char} {c : Char}
    {width : Nat} (hdecode : Utf8.decode (bytes.takeWhile (isPlain quote)) = .ok text)
    (hbehind : bytes.drop (bytes.takeWhile (isPlain quote)).length = Byte.backslash :: rest)
    (hescape : scanEscape quote rest = .ok (c, width)) :
    CleanTo bytes ((bytes.takeWhile (isPlain quote)).length + width) := by
  have hclean := clean_scanEscape quote rest
  rw [hescape, ← hbehind] at hclean
  exact (clean_run hdecode).add hclean

theorem drop_escaped {quote : Byte} {bytes rest : List Byte} {c : Char} {n width : Nat}
    (hbehind : bytes.drop n = Byte.backslash :: rest)
    (hescape : scanEscape quote rest = .ok (c, width)) :
    bytes.drop (n + width) = rest.drop (width - 1) := by
  obtain ⟨k, rfl⟩ := Nat.exists_eq_succ_of_ne_zero (width_pos_of_scanEscape hescape).ne'
  rw [← List.drop_drop, hbehind]
  rfl

theorem clean_scanBody {quote : Byte} (hquote : quote < 0x80) (bytes : List Byte) :
    CleanTo bytes (scanBody quote bytes).reach := by
  fun_induction scanBody quote bytes with
  | case1 bytes run offset hdecode =>
    obtain ⟨hlt, text, htext⟩ := Utf8.take_eq_encode_of_decode hdecode
    have hrun : CleanTo run offset := ⟨hlt.le, text, htext⟩
    have hclean := hrun.append (bytes.dropWhile (isPlain quote))
    rwa [List.takeWhile_append_dropWhile] at hclean
  | case2 bytes run text hdecode hbehind => exact clean_run hdecode
  | case3 bytes run text hdecode rest hbehind =>
    have hclose := CleanTo.of_front (.cons hquote wellFormed_nil) rest
    rw [List.singleton_append, ← hbehind] at hclose
    exact (clean_run hdecode).add hclose
  | case4 bytes run text hdecode rest f hescape hbehind =>
    have hclean := clean_scanEscape quote rest
    rw [hescape, ← hbehind] at hclean
    exact (clean_run hdecode).add hclean
  | case5 bytes run text hdecode rest c width hescape f hf hbehind _ ih =>
    rw [hf, ← drop_escaped hbehind hescape] at ih
    exact (clean_escaped hdecode hbehind hescape).add ih
  | case6 bytes run text hdecode rest c width hescape more n hmore hbehind _ ih =>
    rw [hmore, ← drop_escaped hbehind hescape] at ih
    exact (clean_escaped hdecode hbehind hescape).add ih
  | case7 => exact clean_run ‹_›

theorem clean_scan {o : Options} {l : Limits} {quote : Byte} (hquote : quote < 0x80)
    {bytes : List Byte} {f : Fault} (h : scan o l quote bytes = .error f) :
    CleanTo (quote :: bytes) f.offset := by
  have hbody := CleanTo.behind (.cons hquote wellFormed_nil) (clean_scanBody hquote bytes)
  unfold scan at h
  split at h
  · cases h
    exact .zero _
  · split at h
    · next e he =>
      cases h
      rw [he] at hbody
      exact hbody
    · split at h
      · cases h
        exact .zero _
      · cases h

end StringLiteral

/-! Numbers and tokens. -/

theorem Numeral.clean_scan {o : Options} {bytes : List Byte} {f : Fault}
    (h : Numeral.scan o bytes = .error f) : CleanTo bytes f.offset := by
  rcases Numeral.scan_cases o bytes with
    ⟨n, rest, hn, rfl, hstop⟩ | ⟨n, front, rest, e, -, he, rfl, hoffset, hfront⟩
  · rw [Numeral.scan_decimal hn hstop] at h
    cases h
  · obtain rfl := Except.error.inj (he.symm.trans h)
    rw [hoffset]
    exact .of_front (wellFormed_of_ascii fun b hb => n.ascii b (hfront.subset hb)) rest

theorem Number.clean_scan {o : Options} {l : Limits} {bytes : List Byte} {f : Fault}
    (h : Number.scan o l bytes = .error f) : CleanTo bytes f.offset := by
  unfold Number.scan at h
  split at h
  · split at h
    · cases h
    · cases h
      exact .zero _
  · split at h
    · next e he =>
      cases h
      exact Numeral.clean_scan he
    · split at h
      · cases h
        exact .zero _
      · split at h
        · cases h
          exact .zero _
        · cases h

theorem Scanned.eq_error_of_map {α β : Type} {g : α × Nat → β × Nat} {r : Scanned α} {f : Fault}
    (h : r.map g = .error f) : r = .error f := by
  cases r with
  | ok a => cases h
  | error e =>
    cases h
    rfl

theorem Token.Kind.clean_scan {o : Options} {l : Limits} {bytes : List Byte} {f : Fault}
    (h : Token.Kind.scan o l bytes = .error f) : CleanTo bytes f.offset := by
  unfold Token.Kind.scan at h
  split at h
  · cases h
  · next b rest =>
    split at h
    · cases h
    · split at h
      · next hquote =>
        exact StringLiteral.clean_scan (Byte.ascii_of_quote hquote) (Scanned.eq_error_of_map h)
      · split at h
        · exact Number.clean_scan (Scanned.eq_error_of_map h)
        · split at h
          · unfold Token.Kind.scanWord at h
            split at h
            · cases h
            · cases h
              exact .zero _
          · cases h
            exact .zero _

/-! Texts of the grammar. -/

namespace Grammar

theorem Gap.wellFormed (gap : Gap) : WellFormed gap.bytes :=
  wellFormed_of_ascii fun b hb => Byte.ascii_of_isBlank (gap.blank b hb)

theorem Letter.byte_ascii (e : Letter) : e.byte < 0x80 := by
  cases e <;> decide

theorem HexDigits.wellFormed_escape (d : HexDigits) : WellFormed d.escape :=
  StringLiteral.wellFormed_escapeMark.append (StringLiteral.wellFormed_hexDigits d.hex)

theorem Spelling.wellFormed_text (u : Spelling) : WellFormed u.text := by
  cases u with
  | plain c => exact wellFormed_encodeChar c
  | letter e => exact .cons (by decide) (.cons e.byte_ascii wellFormed_nil)
  | code d => exact d.wellFormed_escape
  | pair high low => exact high.wellFormed_escape.append low.wellFormed_escape

theorem Quoted.wellFormed_text (q : Quoted) : WellFormed q.text := by
  have hunits : WellFormed (q.units.flatMap Spelling.text) := by
    induction q.units with
    | nil => exact wellFormed_nil
    | cons u units ih =>
      rw [List.flatMap_cons]
      exact u.wellFormed_text.append ih
  have hquote := q.quote.byte_ascii
  exact .cons hquote (hunits.append (.cons hquote wellFormed_nil))

theorem Scalar.wellFormed_text (x : Scalar) : WellFormed x.text := by
  cases x with
  | word w =>
    have hascii : w.text.all (· < 0x80) = true := by
      rcases w with (_ | _) | _ <;> rfl
    rw [List.all_eq_true] at hascii
    exact wellFormed_of_ascii fun b hb => of_decide_eq_true (hascii b hb)
  | special s =>
    have hascii : s.spelling.all (· < 0x80) = true := by
      cases s <;> rfl
    rw [List.all_eq_true] at hascii
    exact wellFormed_of_ascii fun b hb => of_decide_eq_true (hascii b hb)
  | decimal n => exact wellFormed_of_ascii n.ascii
  | string q => exact q.wellFormed_text

theorem wellFormed_mark (m : Mark) : WellFormed [m.byte] := .cons m.byte_ascii wellFormed_nil

theorem Lead.wellFormed_text {s : Structure} (lead : Lead s) : WellFormed lead.text := by
  cases lead with
  | element => exact wellFormed_nil
  | member front key back =>
    exact front.wellFormed.append (key.wellFormed_text.append
      (back.wellFormed.append (wellFormed_mark .colon)))

theorem Phrase.wellFormed_text {c : Category} (p : Phrase c) : WellFormed p.text := by
  induction p with
  | scalar x => exact x.wellFormed_text
  | hollow s gap => exact .cons s.opening.byte_ascii (gap.wellFormed.append (wellFormed_mark _))
  | filled s items ih => exact .cons s.opening.byte_ascii (ih.append (wellFormed_mark _))
  | last lead front p back ih =>
    exact lead.wellFormed_text.append (front.wellFormed.append (ih.append back.wellFormed))
  | more lead front p back rest ih ihrest =>
    exact lead.wellFormed_text.append (front.wellFormed.append (ih.append
      (back.wellFormed.append (.cons Mark.comma.byte_ascii ihrest))))

theorem Context.wellFormed_text {c : Category} (k : Context c) : WellFormed k.text := by
  induction k with
  | root => exact wellFormed_nil
  | entry k lead ih => exact ih.append lead.wellFormed_text
  | inside k gap s ih => exact ih.append (gap.wellFormed.append (wellFormed_mark _))
  | next k lead front p back ih =>
    exact ih.append (lead.wellFormed_text.append (front.wellFormed.append
      (p.wellFormed_text.append (back.wellFormed.append (wellFormed_mark .comma)))))

theorem Place.wellFormed_text (place : Place) : WellFormed place.text := by
  cases place with
  | value k gap => exact k.wellFormed_text.append gap.wellFormed
  | key k gap => exact k.wellFormed_text.append gap.wellFormed
  | colon k front q back =>
    exact k.wellFormed_text.append (front.wellFormed.append
      (q.wellFormed_text.append back.wellFormed))
  | after k front p back =>
    exact k.wellFormed_text.append (front.wellFormed.append
      (p.wellFormed_text.append back.wellFormed))

theorem Place.Reached.clean {place : Place} {o : Options} {text rest : List Byte}
    (h : place.Reached o text rest) {k : Nat} (hrest : CleanTo rest k) :
    CleanTo text (place.text.length + k) := by
  rw [h.text_eq]
  exact .behind place.wellFormed_text hrest

end Grammar

open LocatedJson.Parser

theorem Parser.Refused.clean {o : Options} {l : Limits} {levels : Nat} {text : List Byte}
    {failure : Failure} (h : Refused o l levels text failure) : CleanTo text failure.offset := by
  cases h with
  | lexeme h hf => exact h.clean (Token.Kind.clean_scan hf.1)
  | token wanted h hx => exact h.clean (.zero _)
  | ending h hcause => exact h.clean (.zero _)
  | deep h hn => exact h.clean (.zero _)
  | exhausted n h hlevels => exact h.clean (.of_front (wellFormed_mark _) _)

theorem parseText_clean {o : Options} {l : Limits} {levels : Nat} {text : List Byte}
    {failure : Failure} (h : parseText o l levels text = .error failure) :
    CleanTo text failure.offset := by
  rcases parseText_error_cases h with
    ⟨bound, -, -, rfl⟩ | hrefused | ⟨_, _, _, _, _, hplace, -, rfl⟩
  · exact .zero text
  · exact hrefused.clean
  · exact hplace.clean (.zero _)

/-! Well-formed texts. -/

theorem eq_of_mem_encodeChar {c : Char} {b b' : Byte} (hb : b ∈ String.utf8EncodeChar c)
    (hascii : b < 0x80) (hb' : b' ∈ String.utf8EncodeChar c) : b' = b := by
  simp only [UInt8.lt_iff_toNat_lt, UInt8.reduceToNat] at hascii
  have hmem := StringLiteral.mem_encodeChar hb
  have hmem' := StringLiteral.mem_encodeChar hb'
  rw [← UInt8.toNat_inj]
  omega

/-- Cut at ASCII bytes, well-formed bytes are never cut inside a character. -/
theorem Utf8.WellFormed.takeWhile {p : Byte → Bool} (hp : ∀ b, p b = false → b < 0x80)
    {bytes : List Byte} (h : WellFormed bytes) : WellFormed (bytes.takeWhile p) := by
  obtain ⟨text, rfl⟩ := h
  induction text with
  | nil => exact wellFormed_nil
  | cons c text ih =>
    rw [encode_cons]
    by_cases hall : ∀ b ∈ String.utf8EncodeChar c, p b = true
    · rw [List.takeWhile_append_of_pos hall]
      exact (wellFormed_encodeChar c).append ih
    · push Not at hall
      obtain ⟨b, hb, hcut⟩ := hall
      obtain ⟨lead, tail, hchar⟩ := List.exists_cons_of_ne_nil
        (String.utf8EncodeChar_ne_nil (c := c))
      -- the byte to cut at is the whole character
      have hlead : lead = b :=
        eq_of_mem_encodeChar hb (hp b (eq_false_of_ne_true hcut)) (by simp [hchar])
      rw [hchar, List.cons_append, hlead, List.takeWhile_cons_of_neg hcut]
      exact wellFormed_nil

open Scanned (Blames)
open Cause (isLegible isLegible_of_isNotation)

namespace StringLiteral

theorem legible_scanBody (quote : Byte) {bytes : List Byte} (hbytes : WellFormed bytes) :
    Blames isLegible (scanBody quote bytes) := by
  fun_induction scanBody quote bytes with
  | case1 bytes run offset hdecode =>
    -- a run of a well-formed text is decoded
    obtain ⟨text, htext⟩ := Utf8.wellFormed_iff_decode.1
      (hbytes.takeWhile fun b hb => ascii_of_not_isPlain hb)
    rw [hdecode] at htext
    cases htext
  | case2 bytes run text hdecode hbehind => exact .error rfl
  | case3 bytes run text hdecode rest hbehind => exact .ok _
  | case4 bytes run text hdecode rest f hf =>
    exact .error (isLegible_of_isNotation (blames_scanEscape quote rest f hf))
  | case5 bytes run text hdecode rest c width hescape f hf hbehind _ ih =>
    have hmore := (clean_escaped hdecode hbehind hescape).wellFormed_drop hbytes
    rw [drop_escaped hbehind hescape] at hmore
    exact .error (ih hmore f hf)
  | case6 => exact .ok _
  | case7 => exact .error rfl

end StringLiteral

theorem Token.Kind.legible_scan (o : Options) (l : Limits) {bytes : List Byte}
    (hbytes : WellFormed bytes) : Blames isLegible (Token.Kind.scan o l bytes) := by
  apply Token.Kind.blames_scan
  · intro cause h
    exact ((Bool.and_eq_true _ _).mp h).2
  · rintro b rest rfl hquote
    have hopening : WellFormed [b] := .cons (Byte.ascii_of_quote hquote) wellFormed_nil
    exact StringLiteral.legible_scanBody b (hopening.of_append hbytes)

theorem Parser.Refused.legible {o : Options} {l : Limits} {levels : Nat} {text : List Byte}
    (htext : WellFormed text) {failure : Failure} (h : Refused o l levels text failure) :
    failure.cause.isLegible = true := by
  cases h with
  | @lexeme place rest f h hf =>
    rw [h.text_eq] at htext
    exact Token.Kind.legible_scan o l (place.wellFormed_text.of_append htext) f hf.1
  | token wanted h hx => rfl
  | ending h hcause => rcases hcause with rfl | ⟨s, rfl⟩ <;> rfl
  | deep h hn => rfl
  | exhausted n h hlevels => rfl

theorem parseText_legible {o : Options} {l : Limits} {levels : Nat} {text : List Byte}
    (htext : WellFormed text) {failure : Failure} (h : parseText o l levels text = .error failure) :
    failure.cause.isLegible = true := by
  rcases parseText_error_cases h with ⟨bound, -, -, rfl⟩ | hrefused | ⟨_, _, _, _, _, -, -, rfl⟩
  · rfl
  · exact hrefused.legible htext
  · rfl

theorem Cause.message_ne_of_isLegible {cause : Cause} (h : cause.isLegible = true) :
    cause.message ≠ "invalid UTF-8 in string" := by
  intro heq
  -- where only the front of a message is known, its characters are compared
  have hchars := congrArg String.toList heq
  unfold message at heq hchars
  cases cause with
  | invalidUtf8 => cases h
  | notEnabled r =>
    unfold notEnabledMessage at heq
    cases r <;> simp [Relaxation.name, Relaxation.shortName] at heq
  | invalidLiteral | unterminatedString | unpairedLowSurrogate | unpairedHighSurrogate
  | leadingZero | integerTooLong | missingValue | trailingData => simp at heq
  | expectedDigit place found => cases found <;> simp at hchars
  | limitExceeded measure actual limit => cases measure <;> simp [Measure.description] at hchars
  | _ => simp at hchars

theorem CleanTo.exists_front {text : List Char} {k : Nat} (h : CleanTo (Utf8.encode text) k) :
    ∃ front, front <+: text ∧ k = (Utf8.encode front).length := by
  obtain ⟨front, hfront⟩ := h.wellFormed
  obtain ⟨back, hback⟩ := h.wellFormed_drop ⟨text, rfl⟩
  have htext : Utf8.encode text = Utf8.encode (front ++ back) := by
    rw [Utf8.encode_append, ← hfront, ← hback, List.take_append_drop]
  refine ⟨front, ⟨back, (Utf8.encode_injective htext).symm⟩, ?_⟩
  rw [← hfront, List.length_take, Nat.min_eq_left h.le]

/-- A failure lies between two characters, whatever bytes follow; a source made of a text is never
called ill formed, and the failure lies behind a front of the text. -/
theorem Source.parse_failure_boundary {s : Source} {c : Contents} (hc : s.contents = some c)
    {levels : Nat} {config : Config} {failure : Failure} {report : Except DisplayFault Report}
    (h : s.parse levels config = .error (.rejected failure report)) :
    (∀ shown, report = .ok shown →
        shown.offset = failure.offset ∧ shown.text = failure.cause.message) ∧
      failure.offset ≤ c.size ∧ Utf8.WellFormed (c.buffer.take failure.offset) ∧
      ∀ name text, s = .ofText name text → failure.cause.message ≠ "invalid UTF-8 in string" ∧
        ∃ front, front <+: text.toList ∧ failure.offset = (Utf8.encode front).length := by
  obtain ⟨hfailure, rfl⟩ := (Source.parse_eq_error hc).1 h
  have hclean := parseText_clean hfailure
  have hle : failure.offset ≤ c.size := by
    rw [← c.length_text]
    exact hclean.le
  refine ⟨fun shown hshown => ?_, hle, ?_, ?_⟩
  · obtain ⟨-, rfl⟩ := Report.ofFailure_eq_ok_iff.1 hshown
    exact ⟨rfl, rfl⟩
  · have hfront := hclean.wellFormed
    rwa [Contents.text, List.take_take, Nat.min_eq_left hle] at hfront
  · rintro name text rfl
    obtain rfl := Option.some.inj hc
    rw [Contents.text_ofBytes] at hfailure hclean
    have hlegible := parseText_legible ⟨text.toList, rfl⟩ hfailure
    exact ⟨Cause.message_ne_of_isLegible hlegible, hclean.exists_front⟩

def brokenString : List Byte := [0x5b, 0x22, 0xc3, 0xa9, 0xff]

/-- The byte is refused where it stands; a control character in its place is refused there too,
and the text before both is an opening bracket, a quote and the character. -/
theorem Source.parse_brokenString_boundary :
    Utf8.WellFormed (brokenString.take 4) ∧
      ∃ front, front <+: "[\"é\x01".toList ∧ 4 = (Utf8.encode front).length := by
  have hbytes : (Source.ofBytes "broken.json" brokenString).parse 256 .strict =
      .error (.rejected ⟨.invalidUtf8, 4⟩ (Report.ofFailure _ {} _)) :=
    (Source.parse_eq_error rfl).2 ⟨by cbv, rfl⟩
  have htext : (Source.ofText "control.json" "[\"é\x01").parse 256 .strict =
      .error (.rejected ⟨.controlCharacter 1, 4⟩ (Report.ofFailure _ {} _)) :=
    (Source.parse_eq_error rfl).2 ⟨by cbv, rfl⟩
  exact ⟨(Source.parse_failure_boundary rfl hbytes).2.2.1,
    ((Source.parse_failure_boundary rfl htext).2.2.2 _ _ rfl).2⟩

end LocatedJson
