import LocatedJson.Proofs.Grammar.Literal
import LocatedJson.Proofs.Runs
import LocatedJson.Proofs.Utf8

/-! Reading strings. The body of a string is read in runs, but a run gives nothing that its
characters do not give one by one: the reader takes one spelling after the other. From that one
step follow what it accepts, what it returns, and how far a refused text can be completed. -/
namespace LocatedJson.StringLiteral

open Grammar
open String (utf8EncodeChar)

theorem isPlain_byte (q : Quote) (b : Byte) :
    isPlain q.byte b = (b != Byte.backslash && !b.isControl && b != q.byte) := by
  cases q <;> rfl

def scanBehind (quote : Byte) (text : List Char) (n : Nat) : Scan (List Char)
  | [] => .error (.here .unterminatedString n)
  | b :: rest =>
    if b = quote then .ok (text, n + 1)
    else if b = Byte.backslash then
      match scanEscape quote rest with
      | .error f => .error (f.shift n)
      | .ok (c, width) =>
        match scanBody quote (rest.drop (width - 1)) with
        | .error f => .error (f.shift (n + width))
        | .ok (more, m) => .ok (text ++ c :: more, n + width + m)
    else .error (.here (.controlCharacter b) n)

theorem scanBody_eq (quote : Byte) (bytes : List Byte) :
    scanBody quote bytes =
      match Utf8.decode (bytes.takeWhile (isPlain quote)) with
      | .error offset => .error ⟨.invalidUtf8, offset, 0⟩
      | .ok text =>
        scanBehind quote text (bytes.takeWhile (isPlain quote)).length
          (bytes.dropWhile (isPlain quote)) := by
  rw [scanBody]
  have hdrop := drop_length_takeWhile (isPlain quote) bytes
  cases Utf8.decode (bytes.takeWhile (isPlain quote)) with
  | error k => rfl
  | ok text =>
    dsimp only
    split
    · rename_i h
      rw [hdrop] at h
      rw [h, scanBehind]
    · rename_i b rest h
      rw [hdrop] at h
      rw [h]
      rfl

theorem scanBody_of_not_plain {quote b : Byte} (h : isPlain quote b = false) (rest : List Byte) :
    scanBody quote (b :: rest) = scanBehind quote [] 0 (b :: rest) := by
  rw [scanBody_eq]
  simp [h]

theorem scanBody_nil (quote : Byte) :
    scanBody quote [] = .error (.here .unterminatedString 0) := by
  rw [scanBody_eq]
  simp [scanBehind]

theorem scanBody_close (q : Quote) (rest : List Byte) :
    scanBody q.byte (q.byte :: rest) = .ok ([], 1) := by
  rw [scanBody_of_not_plain (by simp [isPlain_byte]), scanBehind]
  simp

theorem scanBody_backslash (q : Quote) (rest : List Byte) :
    scanBody q.byte (Byte.backslash :: rest) =
      match scanEscape q.byte rest with
      | .error f => .error f
      | .ok (c, width) =>
        match scanBody q.byte (rest.drop (width - 1)) with
        | .error f => .error (f.shift width)
        | .ok (more, n) => .ok (c :: more, width + n) := by
  have hq : Byte.backslash ≠ q.byte := by cases q <;> decide
  rw [scanBody_of_not_plain (by simp [isPlain_byte]), scanBehind, if_neg hq, if_pos rfl]
  simp only [Fault.shift, Nat.zero_add, List.nil_append]

theorem scanBody_control {q : Quote} {b : Byte} (h : b.isControl = true) (rest : List Byte) :
    scanBody q.byte (b :: rest) = .error (.here (.controlCharacter b) 0) := by
  have hq : b ≠ q.byte := by
    rintro rfl
    cases q <;> exact absurd h (by decide)
  have hs : b ≠ Byte.backslash := by
    rintro rfl
    exact absurd h (by decide)
  rw [scanBody_of_not_plain (by simp [isPlain_byte, h]), scanBehind, if_neg hq, if_neg hs]

/-! A reading that begins `n` bytes later and is preceded by the characters `front`. -/

/-- The second result is the first one seen from `n` bytes and some characters earlier. Where
reading stopped is left out, since a run is refused at its beginning. -/
def Precedes (front : List Char) (n : Nat) (inner outer : Scanned (List Char)) : Prop :=
  match inner with
  | .ok (text, m) => outer = .ok (front ++ text, n + m)
  | .error f => ∃ g, outer = .error g ∧ g.cause = f.cause ∧ g.offset = n + f.offset

theorem scanBehind_precedes (quote : Byte) (front text : List Char) (k n : Nat)
    (behind : List Byte) :
    Precedes front k (scanBehind quote text n behind)
      (scanBehind quote (front ++ text) (k + n) behind) := by
  cases behind with
  | nil => exact ⟨_, rfl, rfl, rfl⟩
  | cons b rest =>
    simp only [scanBehind]
    by_cases hq : b = quote
    · simp [Precedes, hq, Nat.add_assoc]
    by_cases hs : b = Byte.backslash
    · simp only [if_neg hq, if_pos hs]
      cases scanEscape quote rest with
      | error f => exact ⟨_, rfl, rfl, by simp [Fault.shift, Nat.add_assoc]⟩
      | ok r =>
        dsimp only
        cases scanBody quote (rest.drop (r.2 - 1)) with
        | error f => exact ⟨_, rfl, rfl, by simp [Fault.shift, Nat.add_assoc]⟩
        | ok r' => simp [Precedes, Nat.add_assoc]
    · simp only [if_neg hq, if_neg hs]
      exact ⟨_, rfl, rfl, rfl⟩

/-! A plain character. -/

theorem mem_encodeChar {c : Char} {b : Byte} (h : b ∈ utf8EncodeChar c) :
    c.toNat < 0x80 ∧ b.toNat = c.toNat ∨ 0x80 ≤ c.toNat ∧ 0x80 ≤ b.toNat := by
  have hv := Utf8.toNat_val_bound c
  have hc : c.toNat = c.val.toNat := rfl
  unfold utf8EncodeChar at h
  dsimp only at h
  rw [hc]
  split_ifs at h <;> simp only [List.mem_cons, List.not_mem_nil, or_false] at h
  · rw [h, UInt8.toNat_ofNat']
    omega
  all_goals
    refine .inr ⟨by omega, ?_⟩
    rcases h with rfl | h
    · rw [UInt8.toNat_ofNat']
      omega
  · rw [h, UInt8.toNat_ofNat']
    omega
  · rcases h with rfl | rfl <;> (rw [UInt8.toNat_ofNat']; omega)
  · rcases h with rfl | rfl | rfl <;> (rw [UInt8.toNat_ofNat']; omega)

theorem isPlain_of_mem_encodeChar {q : Quote} {c : Char}
    (hc : (Spelling.plain c).Admitted .paired q) {b : Byte} (h : b ∈ utf8EncodeChar c) :
    isPlain q.byte b = true := by
  obtain ⟨hlow, hslash, hquote⟩ := hc
  have hslash' : c.toNat ≠ 0x5c := fun e => hslash (Char.toNat_inj.1 e)
  have hquote' : c.toNat ≠ q.byte.toNat := by
    intro e
    apply hquote
    cases q <;> exact Char.toNat_inj.1 e
  have hq : q.byte.toNat < 0x80 := by cases q <;> decide
  have hb := mem_encodeChar h
  simp only [isPlain_byte, Byte.isControl, Bool.and_eq_true, bne_iff_ne, Bool.not_eq_true',
    decide_eq_false_iff_not, ne_eq, UInt8.lt_iff_toNat_lt, ← UInt8.toNat_inj, Byte.backslash,
    Byte.space, UInt8.reduceToNat]
  omega

theorem scanBody_char {q : Quote} {c : Char} (hc : (Spelling.plain c).Admitted .paired q)
    (rest : List Byte) :
    Precedes [c] (utf8EncodeChar c).length (scanBody q.byte rest)
      (scanBody q.byte (utf8EncodeChar c ++ rest)) := by
  have hplain : ∀ b ∈ utf8EncodeChar c, isPlain q.byte b = true :=
    fun b => isPlain_of_mem_encodeChar hc
  rw [scanBody_eq q.byte rest, scanBody_eq q.byte (utf8EncodeChar c ++ rest),
    List.takeWhile_append_of_pos hplain, List.dropWhile_append_of_pos hplain,
    Utf8.decode_encodeChar_append, ← String.length_utf8EncodeChar]
  cases Utf8.decode (rest.takeWhile (isPlain q.byte)) with
  | error k => exact ⟨_, rfl, rfl, rfl⟩
  | ok text =>
    rw [List.length_append]
    exact scanBehind_precedes q.byte [c] text _ _ _

/-- An ill-formed piece is refused at its first byte. -/
theorem scanBody_broken {q : Quote} {lead : Byte} {tail : List Byte} {width : Nat}
    (hlead : isPlain q.byte lead = true) (h : Utf8.firstPiece lead tail = .broken width) :
    scanBody q.byte (lead :: tail) = .error ⟨.invalidUtf8, 0, 0⟩ := by
  have hsplit := List.takeWhile_append_dropWhile (p := isPlain q.byte) (l := tail)
  rw [← hsplit] at h
  obtain ⟨width', h'⟩ := Utf8.firstPiece_broken_of_append h
  rw [scanBody_eq, List.takeWhile_cons_of_pos hlead, Utf8.decode_broken h']

/-! Escapes. -/

theorem shortEscape?_eq_some_iff {q : Quote} {b : Byte} {c : Char} :
    shortEscape? q.byte b = some c ↔
      ∃ e : Letter, e.byte = b ∧ e.char = c ∧ (e = .apostrophe → q = .single) := by
  constructor
  · intro h
    unfold shortEscape? at h
    split_ifs at h with h1 h2 h3 h4 h5 h6 h7 h8 h9
    · exact ⟨.lineFeed, h1.symm, Option.some.inj h, nofun⟩
    · exact ⟨.tab, h2.symm, Option.some.inj h, nofun⟩
    · exact ⟨.carriageReturn, h3.symm, Option.some.inj h, nofun⟩
    · exact ⟨.backspace, h4.symm, Option.some.inj h, nofun⟩
    · exact ⟨.formFeed, h5.symm, Option.some.inj h, nofun⟩
    · exact ⟨.quote, h6.symm, Option.some.inj h, nofun⟩
    · exact ⟨.backslash, h7.symm, Option.some.inj h, nofun⟩
    · exact ⟨.slash, h8.symm, Option.some.inj h, nofun⟩
    · obtain ⟨hb, hq⟩ : b = Byte.apostrophe ∧ q.byte = Byte.apostrophe := by simpa using h9
      refine ⟨.apostrophe, hb.symm, Option.some.inj h, fun _ => ?_⟩
      cases q
      · exact absurd hq (by decide)
      · rfl
  · rintro ⟨e, rfl, rfl, he⟩
    cases e
    case apostrophe =>
      rw [he rfl]
      decide
    all_goals cases q <;> decide

theorem scanHexDigits_append (d : HexDigits) (rest : List Byte) :
    scanHexDigits (d.bytes ++ rest) = .ok (d.value, 4) := by
  have htake : (d.bytes ++ rest).take 4 = d.bytes := by rw [← d.length_eq, List.take_left]
  have hrun : d.bytes.takeWhile Byte.isHexDigit = d.bytes := List.takeWhile_eq_self_iff.2 d.hex
  simp only [scanHexDigits, htake, hrun, d.length_eq, d.hexadecimalValue_bytes, ↓reduceIte]

/-- Digits that break off before the fourth: what is said of it, and how far behind the first of
them. -/
inductive BrokenDigits : List Byte → Cause → Nat → Prop where
  | ended {front : List Byte} (hlen : front.length < 4) (hhex : ∀ b ∈ front, b.isHexDigit = true) :
      BrokenDigits front .unterminatedString front.length
  | stray {front : List Byte} (hlen : front.length < 4) (hhex : ∀ b ∈ front, b.isHexDigit = true)
      {b : Byte} (hb : b.isHexDigit = false) (rest : List Byte) :
      BrokenDigits (front ++ b :: rest) (.expectedHexDigit b) front.length

namespace BrokenDigits

theorem exists_front {bytes : List Byte} {cause : Cause} {k : Nat}
    (h : BrokenDigits bytes cause k) :
    ∃ front rest, bytes = front ++ rest ∧ front.length < 4 ∧
      (∀ b ∈ front, b.isHexDigit = true) ∧ k = front.length := by
  cases h with
  | ended hlen hhex => exact ⟨bytes, [], by simp, hlen, hhex, rfl⟩
  | stray hlen hhex hb rest => exact ⟨_, _, rfl, hlen, hhex, rfl⟩

theorem scanHexDigits {bytes : List Byte} {cause : Cause} {k : Nat}
    (h : BrokenDigits bytes cause k) :
    ∃ stop, StringLiteral.scanHexDigits bytes = .error ⟨cause, k, stop⟩ := by
  cases h with
  | ended hlen hhex =>
    have htake : bytes.take 4 = bytes := List.take_of_length_le (by omega)
    have hrun : bytes.takeWhile Byte.isHexDigit = bytes := List.takeWhile_eq_self_iff.2 hhex
    refine ⟨bytes.length, ?_⟩
    simp only [StringLiteral.scanHexDigits, htake, hrun, if_neg (show bytes.length ≠ 4 by omega),
      List.drop_length, Fault.here]
  | @stray front hlen hhex b hb rest =>
    obtain ⟨k, hk⟩ : ∃ k, 4 - front.length = k + 1 := ⟨3 - front.length, by omega⟩
    have hstop : Stops Byte.isHexDigit (b :: rest.take k) := by rwa [stops_cons]
    have htake : (front ++ b :: rest).take 4 = front ++ b :: rest.take k := by
      rw [List.take_append, List.take_of_length_le (by omega), hk, List.take_succ_cons]
    refine ⟨0, ?_⟩
    simp only [StringLiteral.scanHexDigits, htake, takeWhile_append_stop hhex hstop,
      if_neg (show front.length ≠ 4 by omega), List.drop_left]

end BrokenDigits

theorem scanHexDigits_cases (bytes : List Byte) :
    (∃ (d : HexDigits) (rest : List Byte), bytes = d.bytes ++ rest) ∨
      ∃ cause k, BrokenDigits bytes cause k := by
  have hsplit := List.takeWhile_append_dropWhile (p := Byte.isHexDigit) (l := bytes)
  have hhex : ∀ b ∈ bytes.takeWhile Byte.isHexDigit, b.isHexDigit = true :=
    fun _ => List.mem_takeWhile_imp
  have hstop := stops_dropWhile Byte.isHexDigit bytes
  generalize bytes.takeWhile Byte.isHexDigit = run at hsplit hhex
  generalize bytes.dropWhile Byte.isHexDigit = rest at hsplit hstop
  subst hsplit
  by_cases h4 : 4 ≤ run.length
  · have hfour : ∀ b ∈ run.take 4, (hexTable.lookup b).isSome = true :=
      fun b hb => isHexDigit_iff.1 (hhex b (List.mem_of_mem_take hb))
    refine .inl ⟨⟨run.take 4, by simp [h4], hfour⟩, run.drop 4 ++ rest, ?_⟩
    rw [← List.append_assoc, List.take_append_drop]
  · have hlen : run.length < 4 := by omega
    right
    cases rest with
    | nil =>
      rw [List.append_nil]
      exact ⟨_, _, .ended hlen hhex⟩
    | cons b rest =>
      rw [stops_cons] at hstop
      exact ⟨_, _, .stray hlen hhex hstop rest⟩

theorem isHighSurrogate_value (d : HexDigits) :
    isHighSurrogate d.value = true ↔ d.IsHigh := by
  simp [isHighSurrogate, HexDigits.IsHigh]

theorem isLowSurrogate_value (d : HexDigits) : isLowSurrogate d.value = true ↔ d.IsLow := by
  simp [isLowSurrogate, HexDigits.IsLow]

theorem hexValue_lt (b : Byte) : (Byte.hexValue? b).getD 0 < 16 := by
  unfold Byte.hexValue?
  simp only [Byte.isDigit, Bool.and_eq_true, decide_eq_true_eq, UInt8.le_iff_toNat_le,
    UInt8.reduceToNat]
  split_ifs <;> simp only [Option.getD_some, Option.getD_none] <;> omega

theorem value_lt (d : HexDigits) : d.value < 0x10000 := by
  have hdigits : ∀ n ∈ d.bytes.reverse.map fun b => (hexTable.lookup b).getD 0, n < 16 := by
    intro n hn
    obtain ⟨b, -, rfl⟩ := List.mem_map.1 hn
    rw [lookup_hexTable]
    exact hexValue_lt b
  have h := Nat.ofDigits_lt_base_pow_length (by decide) hdigits
  rwa [List.length_map, List.length_reverse, d.length_eq] at h

theorem isValidChar_code {d : HexDigits} (hlow : ¬ d.IsLow) (hhigh : ¬ d.IsHigh) :
    d.value.isValidChar := by
  have hlt := value_lt d
  simp only [HexDigits.IsLow, HexDigits.IsHigh] at hlow hhigh
  unfold Nat.isValidChar
  omega

theorem isValidChar_pair {high low : HexDigits} (hhigh : high.IsHigh) (hlow : low.IsLow) :
    (pairedCodePoint high.value low.value).isValidChar := by
  simp only [HexDigits.IsLow, HexDigits.IsHigh] at hlow hhigh
  unfold Nat.isValidChar pairedCodePoint
  omega

theorem scanEscape_lowerU (quote : Byte) (rest : List Byte) :
    scanEscape quote (Byte.lowerU :: rest) =
      match scanHexDigits rest with
      | .error f => .error (f.shift 2)
      | .ok (n, width) =>
        if isLowSurrogate n then .error ⟨.unpairedLowSurrogate, 0, 2 + width⟩
        else if isHighSurrogate n then
          match scanLowSurrogate n (rest.drop width) with
          | .error f => .error (f.shift (2 + width))
          | .ok (c, m) => .ok (c, 2 + width + m)
        else .ok (Char.ofNat n, 2 + width) := rfl

theorem scanEscape_of_ne {b : Byte} (h : b ≠ Byte.lowerU) (quote : Byte) (rest : List Byte) :
    scanEscape quote (b :: rest) =
      match shortEscape? quote b with
      | some c => .ok (c, 2)
      | none => .error (.here (.invalidEscape b) 1) := by
  unfold scanEscape
  split
  · rename_i heq
    cases heq
  · rename_i heq
    cases heq
    exact absurd rfl h
  · rename_i heq
    cases heq
    rfl

theorem scanLowSurrogate_escape (high : Nat) (rest : List Byte) :
    scanLowSurrogate high (Byte.backslash :: Byte.lowerU :: rest) =
      match scanHexDigits rest with
      | .error f => .error (f.shift 2)
      | .ok (low, n) =>
        if isLowSurrogate low then .ok (Char.ofNat (pairedCodePoint high low), 2 + n)
        else .error ⟨.unpairedHighSurrogate, 0, 2 + n⟩ := rfl

theorem scanLowSurrogate_of_no_escape {bytes : List Byte}
    (h : ∀ rest, bytes ≠ Byte.backslash :: Byte.lowerU :: rest) (high : Nat) :
    scanLowSurrogate high bytes = .error (.here .unpairedHighSurrogate 0) := by
  unfold scanLowSurrogate
  split
  · rename_i rest
    exact absurd rfl (h rest)
  · rfl

theorem not_isLow_of_isHigh {d : HexDigits} (h : d.IsHigh) : ¬ d.IsLow := by
  unfold HexDigits.IsHigh HexDigits.IsLow at *
  omega

theorem drop_digits (d : HexDigits) (rest : List Byte) : (d.bytes ++ rest).drop 4 = rest := by
  rw [← d.length_eq, List.drop_left]

theorem scanEscape_high (quote : Byte) {d : HexDigits} (h : d.IsHigh) (rest : List Byte) :
    scanEscape quote (Byte.lowerU :: (d.bytes ++ rest)) =
      match scanLowSurrogate d.value rest with
      | .error f => .error (f.shift 6)
      | .ok (c, m) => .ok (c, 6 + m) := by
  have hl := mt (isLowSurrogate_value d).1 (not_isLow_of_isHigh h)
  have hh := (isHighSurrogate_value d).2 h
  rw [scanEscape_lowerU, scanHexDigits_append]
  simp only [hl, hh, drop_digits, ↓reduceIte, Bool.false_eq_true]

/-- An escape that the grammar has is read as the character it stands for. -/
theorem scanEscape_spelling {q : Quote} {u : Spelling} (hu : u.Admitted .paired q)
    {front : List Byte} (htext : u.text = Byte.backslash :: front) (hplain : ∀ c, u ≠ .plain c)
    (rest : List Byte) : scanEscape q.byte (front ++ rest) = .ok (u.char, u.text.length) := by
  cases u with
  | plain c => exact absurd rfl (hplain c)
  | letter e =>
    obtain rfl : [e.byte] = front := (List.cons.inj htext).2
    have hne : e.byte ≠ Byte.lowerU := by cases e <;> decide
    rw [List.singleton_append, scanEscape_of_ne hne,
      shortEscape?_eq_some_iff.2 ⟨e, rfl, rfl, hu⟩]
    rfl
  | code d =>
    obtain rfl : Byte.lowerU :: d.bytes = front := (List.cons.inj htext).2
    have hl := mt (isLowSurrogate_value d).1 (hu rfl).2
    have hh := mt (isHighSurrogate_value d).1 (hu rfl).1
    rw [List.cons_append, scanEscape_lowerU, scanHexDigits_append]
    simp [hl, hh, Spelling.char, Spelling.text, HexDigits.escape, d.length_eq]
  | pair high low =>
    have hlen : (Spelling.pair high low).text.length = 12 := by
      simp [Spelling.text, HexDigits.escape, high.length_eq, low.length_eq]
    rw [Spelling.text, HexDigits.escape, List.cons_append, List.cons_append] at htext
    obtain rfl := (List.cons.inj htext).2
    obtain ⟨hhigh, hlow⟩ := hu
    rw [List.cons_append, List.append_assoc, scanEscape_high q.byte hhigh, HexDigits.escape,
      List.cons_append, List.cons_append, scanLowSurrogate_escape, scanHexDigits_append]
    simp only [(isLowSurrogate_value low).2 hlow, ↓reduceIte, hlen]
    rfl

/-! Refused bodies. Where a body neither ends nor goes on with a spelling, one of a few things
stands there; each is refused in its own way. -/

/-- Bytes that neither close a body nor begin with a spelling that may stand there: what is said of
them, and how far behind the first of them. A high half that no `\u` follows is not paired, also
where the input ends. -/
inductive Stuck (q : Quote) : List Byte → Cause → Nat → Prop where
  | ended : Stuck q [] .unterminatedString 0
  | control {b : Byte} (h : b.isControl = true) (rest : List Byte) :
      Stuck q (b :: rest) (.controlCharacter b) 0
  | illFormed {b : Byte} {rest : List Byte} (hquote : b ≠ q.byte) (hslash : b ≠ Byte.backslash)
      (hcontrol : ¬ b.isControl = true) (h : ∀ c, ¬ utf8EncodeChar c <+: b :: rest) :
      Stuck q (b :: rest) .invalidUtf8 0
  | endedEscape : Stuck q [Byte.backslash] .unterminatedString 1
  | unknownEscape {b : Byte} (hcode : b ≠ Byte.lowerU)
      (hletter : ∀ e : Letter, e.byte = b → ¬ (Spelling.letter e).Admitted .paired q)
      (rest : List Byte) : Stuck q (Byte.backslash :: b :: rest) (.invalidEscape b) 1
  | digits {bytes : List Byte} {cause : Cause} {k : Nat} (h : BrokenDigits bytes cause k) :
      Stuck q (Byte.backslash :: Byte.lowerU :: bytes) cause (2 + k)
  | lowHalf {d : HexDigits} (h : d.IsLow) (rest : List Byte) :
      Stuck q (d.escape ++ rest) .unpairedLowSurrogate 0
  | highHalf {d : HexDigits} (h : d.IsHigh) {rest : List Byte}
      (hrest : ¬ [Byte.backslash, Byte.lowerU] <+: rest) :
      Stuck q (d.escape ++ rest) .unpairedHighSurrogate 6
  | pairDigits {d : HexDigits} (h : d.IsHigh) {bytes : List Byte} {cause : Cause} {k : Nat}
      (hdigits : BrokenDigits bytes cause k) :
      Stuck q (d.escape ++ Byte.backslash :: Byte.lowerU :: bytes) cause (8 + k)
  | unequalPair {d e : HexDigits} (h : d.IsHigh) (he : ¬ e.IsLow) (rest : List Byte) :
      Stuck q (d.escape ++ (e.escape ++ rest)) .unpairedHighSurrogate 6

theorem Stuck.scanEscape {q : Quote} {bytes rest : List Byte} {cause : Cause} {k : Nat}
    (h : Stuck q bytes cause k) (hbytes : bytes = Byte.backslash :: rest) :
    ∃ stop, StringLiteral.scanEscape q.byte rest = .error ⟨cause, k, stop⟩ := by
  cases h with
  | ended => cases hbytes
  | control h =>
    cases hbytes
    exact absurd h (by decide)
  | illFormed _ hslash =>
    cases hbytes
    exact absurd rfl hslash
  | endedEscape =>
    cases hbytes
    exact ⟨1, rfl⟩
  | @unknownEscape b hcode hletter =>
    cases hbytes
    have hnone : shortEscape? q.byte b = none := by
      rw [Option.eq_none_iff_forall_ne_some]
      intro c hc
      obtain ⟨e, hbyte, -, he⟩ := shortEscape?_eq_some_iff.1 hc
      exact hletter e hbyte he
    refine ⟨1, ?_⟩
    rw [scanEscape_of_ne hcode, hnone]
    rfl
  | digits h =>
    cases hbytes
    obtain ⟨stop, hscan⟩ := h.scanHexDigits
    exact ⟨2 + stop, by rw [scanEscape_lowerU, hscan]; rfl⟩
  | @lowHalf d h rest =>
    cases hbytes
    refine ⟨6, ?_⟩
    rw [List.append_eq, List.cons_append, scanEscape_lowerU, scanHexDigits_append]
    simp only [(isLowSurrogate_value d).2 h, ↓reduceIte]
  | @highHalf d h rest hrest =>
    cases hbytes
    have hno : ∀ tail, rest ≠ Byte.backslash :: Byte.lowerU :: tail := by
      rintro tail rfl
      exact hrest ⟨tail, rfl⟩
    refine ⟨6, ?_⟩
    rw [List.append_eq, List.cons_append, scanEscape_high q.byte h,
      scanLowSurrogate_of_no_escape hno]
    rfl
  | pairDigits h hdigits =>
    cases hbytes
    obtain ⟨stop, hscan⟩ := hdigits.scanHexDigits
    refine ⟨6 + (2 + stop), ?_⟩
    rw [List.append_eq, List.cons_append, scanEscape_high q.byte h, scanLowSurrogate_escape, hscan]
    simp only [Fault.shift, ← Nat.add_assoc]
  | @unequalPair d e h he rest =>
    cases hbytes
    refine ⟨12, ?_⟩
    rw [List.append_eq, List.cons_append, scanEscape_high q.byte h, HexDigits.escape,
      List.cons_append, List.cons_append, scanLowSurrogate_escape, scanHexDigits_append]
    simp only [mt (isLowSurrogate_value e).1 he, Fault.shift, Bool.false_eq_true, ↓reduceIte]

/-! With single surrogates let through, the bytes before the refused one are the front of some
body. -/

/-- The first `k` bytes can be completed to spellings that may stand between quotes of this
kind, if surrogates need not be paired. -/
def Continuable (q : Quote) (bytes : List Byte) (k : Nat) : Prop :=
  k ≤ bytes.length ∧ ∃ units : List Spelling, (∀ u ∈ units, u.Admitted .free q) ∧
    bytes.take k <+: units.flatMap Spelling.text

theorem Continuable.zero (q : Quote) (bytes : List Byte) : Continuable q bytes 0 :=
  ⟨Nat.zero_le _, [], by simp, by simp⟩

theorem Continuable.of_front {q : Quote} (front rest : List Byte) {units : List Spelling}
    (hunits : ∀ u ∈ units, u.Admitted .free q) (h : front <+: units.flatMap Spelling.text) :
    Continuable q (front ++ rest) front.length := by
  refine ⟨by rw [List.length_append]; omega, units, hunits, ?_⟩
  rwa [List.take_left]

theorem Continuable.append {q : Quote} {u : Spelling} (hu : u.Admitted .free q)
    {rest : List Byte} {k : Nat} (h : Continuable q rest k) :
    Continuable q (u.text ++ rest) (u.text.length + k) := by
  obtain ⟨hk, units, hunits, hfront⟩ := h
  refine ⟨by rw [List.length_append]; omega, u :: units, ?_, ?_⟩
  · rintro v (_ | ⟨_, hv⟩)
    · exact hu
    · exact hunits v hv
  · rw [List.take_length_add_append, List.flatMap_cons]
    exact (List.prefix_append_right_inj _).2 hfront

theorem exists_hexDigits_front {front : List Byte} (hlen : front.length < 4)
    (hhex : ∀ b ∈ front, b.isHexDigit = true) : ∃ d : HexDigits, front <+: d.bytes := by
  refine ⟨⟨front ++ List.replicate (4 - front.length) Byte.zero, by simp; omega, ?_⟩, by simp⟩
  intro b hb
  rcases List.mem_append.1 hb with hb | hb
  · exact isHexDigit_iff.1 (hhex b hb)
  · rw [List.eq_of_mem_replicate hb]
    decide

theorem Continuable.hex (q : Quote) {front : List Byte} (hlen : front.length < 4)
    (hhex : ∀ b ∈ front, b.isHexDigit = true) (rest : List Byte) :
    Continuable q (Byte.backslash :: Byte.lowerU :: (front ++ rest)) (2 + front.length) := by
  obtain ⟨d, hd⟩ := exists_hexDigits_front hlen hhex
  have hcode : ∀ u ∈ [Spelling.code d], u.Admitted .free q := by simp [Spelling.Admitted]
  have h := Continuable.of_front (Byte.backslash :: Byte.lowerU :: front) rest hcode
    (by simpa [Spelling.text, HexDigits.escape] using hd)
  rw [Nat.add_comm]
  exact h

theorem Stuck.continuable {q : Quote} {bytes : List Byte} {cause : Cause} {k : Nat}
    (h : Stuck q bytes cause k) : Continuable q bytes k := by
  have hletter : ∀ u ∈ [Spelling.letter .lineFeed], u.Admitted .free q := by
    simp [Spelling.Admitted]
  have slash (tail : List Byte) : Continuable q (Byte.backslash :: tail) 1 :=
    .of_front [Byte.backslash] tail hletter (by simp [Spelling.text])
  have code (d : HexDigits) : (Spelling.code d).Admitted .free q := by rintro ⟨⟩
  have hcode (d : HexDigits) : (Spelling.code d).text.length = 6 := by
    simp [Spelling.text, HexDigits.escape, d.length_eq]
  have alone (d : HexDigits) (tail : List Byte) : Continuable q (d.escape ++ tail) 6 := by
    have hzero := (Continuable.zero q tail).append (code d)
    rwa [hcode] at hzero
  cases h with
  | ended => exact .zero q []
  | control h rest => exact .zero q _
  | illFormed => exact .zero q _
  | endedEscape => exact slash []
  | unknownEscape => exact slash _
  | digits h =>
    obtain ⟨front, rest, rfl, hlen, hhex, rfl⟩ := h.exists_front
    exact .hex q hlen hhex rest
  | lowHalf => exact .zero q _
  | highHalf => exact alone _ _
  | @pairDigits d _ _ _ _ hdigits =>
    obtain ⟨front, rest, rfl, hlen, hhex, rfl⟩ := hdigits.exists_front
    have hpair := (Continuable.hex q hlen hhex rest).append (code d)
    rw [hcode, ← Nat.add_assoc] at hpair
    exact hpair
  | unequalPair => exact alone _ _

/-- An escape whose four digits are there: a low half is refused at once, a high half unless a
low one follows. -/
theorem codeEscape_cases (q : Quote) (d : HexDigits) (rest : List Byte) :
    (∃ (u : Spelling) (front tail : List Byte), u.Admitted .paired q ∧ (∀ c, u ≠ .plain c) ∧
      u.text = Byte.backslash :: front ∧ Byte.lowerU :: (d.bytes ++ rest) = front ++ tail) ∨
    ∃ cause k, Stuck q (d.escape ++ rest) cause k := by
  by_cases hl : d.IsLow
  · exact .inr ⟨_, _, .lowHalf hl rest⟩
  by_cases hh : d.IsHigh
  · by_cases hlow : [Byte.backslash, Byte.lowerU] <+: rest
    · obtain ⟨tail, rfl⟩ := hlow
      rcases scanHexDigits_cases tail with ⟨e, tail, rfl⟩ | ⟨cause, k, hdigits⟩
      · by_cases he : e.IsLow
        · exact .inl ⟨.pair d e, _, tail, ⟨hh, he⟩, nofun, rfl, by simp [HexDigits.escape]⟩
        · exact .inr ⟨_, _, .unequalPair hh he tail⟩
      · exact .inr ⟨_, _, .pairDigits hh hdigits⟩
    · exact .inr ⟨_, _, .highHalf hh hlow⟩
  · exact .inl ⟨.code d, _, rest, fun _ => ⟨hh, hl⟩, nofun, rfl, rfl⟩

theorem escape_cases (q : Quote) (rest : List Byte) :
    (∃ (u : Spelling) (front tail : List Byte), u.Admitted .paired q ∧ (∀ c, u ≠ .plain c) ∧
      u.text = Byte.backslash :: front ∧ rest = front ++ tail) ∨
    ∃ cause k, Stuck q (Byte.backslash :: rest) cause k := by
  match rest with
  | [] => exact .inr ⟨_, _, .endedEscape⟩
  | b :: rest =>
    by_cases hb : b = Byte.lowerU
    · subst hb
      rcases scanHexDigits_cases rest with ⟨d, tail, rfl⟩ | ⟨cause, k, hdigits⟩
      · exact codeEscape_cases q d tail
      · exact .inr ⟨_, _, .digits hdigits⟩
    · by_cases hletter : ∃ e : Letter, e.byte = b ∧ (Spelling.letter e).Admitted .paired q
      · obtain ⟨e, rfl, he⟩ := hletter
        exact .inl ⟨.letter e, [e.byte], rest, he, nofun, rfl, rfl⟩
      · exact .inr ⟨_, _, .unknownEscape hb (fun e he hadmitted => hletter ⟨e, he, hadmitted⟩) rest⟩

/-! The step. -/

theorem scanBody_spelling {q : Quote} {u : Spelling} (hu : u.Admitted .paired q)
    (rest : List Byte) :
    Precedes [u.char] u.text.length (scanBody q.byte rest) (scanBody q.byte (u.text ++ rest)) := by
  have escape {front : List Byte} (htext : u.text = Byte.backslash :: front)
      (hplain : ∀ c, u ≠ .plain c) :
      Precedes [u.char] u.text.length (scanBody q.byte rest)
        (scanBody q.byte (u.text ++ rest)) := by
    have hscan := scanEscape_spelling hu htext hplain rest
    have hdrop : (front ++ rest).drop (u.text.length - 1) = rest := by
      rw [htext, List.length_cons, Nat.add_sub_cancel, List.drop_left]
    have hbody := scanBody_backslash q (front ++ rest)
    rw [hscan] at hbody
    simp only [hdrop] at hbody
    rw [htext] at hbody ⊢
    rw [List.cons_append, hbody]
    cases scanBody q.byte rest with
    | error f => exact ⟨_, rfl, rfl, rfl⟩
    | ok r => rfl
  cases u with
  | plain c => exact scanBody_char hu rest
  | letter e => exact escape rfl (by rintro _ ⟨⟩)
  | code d => exact escape rfl (by rintro _ ⟨⟩)
  | pair high low => exact escape rfl (by rintro _ ⟨⟩)

theorem length_text_pos (u : Spelling) : 0 < u.text.length := by
  cases u with
  | plain c => exact Utf8.length_encodeChar_pos c
  | letter e => exact Nat.succ_pos _
  | code d => exact Nat.succ_pos _
  | pair high low => exact Nat.succ_pos _

theorem plain_admitted {q : Quote} {c : Char} {b : Byte} (hb : b ∈ utf8EncodeChar c)
    (hq : b ≠ q.byte) (hs : b ≠ Byte.backslash) (hctrl : ¬ b.isControl = true) :
    (Spelling.plain c).Admitted .paired q := by
  have hc := mem_encodeChar hb
  simp only [Byte.isControl, decide_eq_true_eq, UInt8.lt_iff_toNat_lt, Byte.space,
    UInt8.reduceToNat] at hctrl
  refine ⟨by omega, ?_, ?_⟩
  · rintro rfl
    rcases hc with ⟨-, hn⟩ | ⟨hn, -⟩
    · exact hs (UInt8.toNat_inj.1 hn)
    · exact absurd hn (by decide)
  · rintro rfl
    rcases hc with ⟨-, hn⟩ | ⟨hn, -⟩
    · apply hq
      cases q <;> exact UInt8.toNat_inj.1 hn
    · cases q <;> exact absurd hn (by decide)

/-- What can stand at the front of a body: its end, a spelling, or something refused. -/
theorem body_cases (q : Quote) (b : Byte) (bytes : List Byte) :
    b = q.byte ∨ (∃ (u : Spelling) (rest : List Byte), u.Admitted .paired q ∧
      b :: bytes = u.text ++ rest) ∨ ∃ cause k, Stuck q (b :: bytes) cause k := by
  by_cases hq : b = q.byte
  · exact .inl hq
  by_cases hs : b = Byte.backslash
  · subst hs
    rcases escape_cases q bytes with ⟨u, front, tail, hu, -, htext, rfl⟩ | hstuck
    · exact .inr (.inl ⟨u, tail, hu, by rw [htext]; rfl⟩)
    · exact .inr (.inr hstuck)
  by_cases hctrl : b.isControl = true
  · exact .inr (.inr ⟨_, _, .control hctrl bytes⟩)
  by_cases hchar : ∃ c, utf8EncodeChar c <+: b :: bytes
  · obtain ⟨c, rest, hc⟩ := hchar
    refine .inr (.inl ⟨.plain c, rest, plain_admitted ?_ hq hs hctrl, hc.symm⟩)
    obtain ⟨lead, tail, h⟩ := List.exists_cons_of_ne_nil (String.utf8EncodeChar_ne_nil (c := c))
    rw [h, List.cons_append] at hc
    rw [h, ← (List.cons.inj hc).1]
    exact List.mem_cons_self
  · exact .inr (.inr ⟨_, _, .illFormed hq hs hctrl (not_exists.1 hchar)⟩)

@[elab_as_elim]
theorem body_induction (q : Quote) {motive : List Byte → Prop}
    (close : ∀ rest, motive (q.byte :: rest))
    (spelling : ∀ (u : Spelling) (rest : List Byte), u.Admitted .paired q → motive rest →
      motive (u.text ++ rest))
    (stuck : ∀ bytes cause k, Stuck q bytes cause k → motive bytes)
    (bytes : List Byte) : motive bytes := by
  induction hn : bytes.length using Nat.strongRecOn generalizing bytes with
  | ind n ih =>
    match bytes with
    | [] => exact stuck _ _ _ .ended
    | b :: bytes =>
      rcases body_cases q b bytes with rfl | ⟨u, rest, hu, htext⟩ | ⟨cause, k, hstuck⟩
      · exact close bytes
      · have hpos := length_text_pos u
        have hlen := congrArg List.length htext
        rw [hn, List.length_append] at hlen
        rw [htext]
        exact spelling u rest hu (ih rest.length (by omega) rest rfl)
      · exact stuck _ _ _ hstuck

/-- What is stuck is refused as such. -/
theorem Stuck.scanBody {q : Quote} {bytes : List Byte} {cause : Cause} {k : Nat}
    (h : Stuck q bytes cause k) :
    ∃ stop, StringLiteral.scanBody q.byte bytes = .error ⟨cause, k, stop⟩ := by
  have escape {rest : List Byte} (hbytes : bytes = Byte.backslash :: rest) :
      ∃ stop, StringLiteral.scanBody q.byte bytes = .error ⟨cause, k, stop⟩ := by
    obtain ⟨stop, hscan⟩ := h.scanEscape hbytes
    exact ⟨stop, by rw [hbytes, scanBody_backslash, hscan]⟩
  cases h with
  | ended => exact ⟨0, scanBody_nil q.byte⟩
  | control h rest => exact ⟨0, scanBody_control h rest⟩
  | @illFormed b rest hquote hslash hcontrol h =>
    have hplain : isPlain q.byte b = true := by simp [isPlain_byte, hquote, hslash, hcontrol]
    rcases Utf8.front_cases b rest with ⟨c, tail, hc⟩ | ⟨width, hw⟩
    · exact absurd ⟨tail, hc.symm⟩ (h c)
    · exact ⟨0, scanBody_broken hplain hw⟩
  | endedEscape => exact escape rfl
  | unknownEscape => exact escape rfl
  | digits => exact escape rfl
  | lowHalf => exact escape rfl
  | highHalf => exact escape rfl
  | pairDigits => exact escape rfl
  | unequalPair => exact escape rfl

theorem scanBody_units {q : Quote} {units : List Spelling}
    (hunits : ∀ u ∈ units, u.Admitted .paired q) (rest : List Byte) :
    scanBody q.byte (units.flatMap Spelling.text ++ q.byte :: rest) =
      .ok (units.map Spelling.char, (units.flatMap Spelling.text).length + 1) := by
  induction units with
  | nil => exact scanBody_close q rest
  | cons u units ih =>
    have hu := hunits u List.mem_cons_self
    have hstep := scanBody_spelling hu (units.flatMap Spelling.text ++ q.byte :: rest)
    rw [ih fun v hv => hunits v (List.mem_cons_of_mem u hv)] at hstep
    rw [List.flatMap_cons, List.append_assoc]
    refine Eq.trans hstep ?_
    rw [List.length_append, Nat.add_assoc]
    rfl

theorem exists_units_of_scanBody {q : Quote} {bytes : List Byte} {text : List Char} {n : Nat}
    (h : scanBody q.byte bytes = .ok (text, n)) :
    ∃ (units : List Spelling) (rest : List Byte), (∀ u ∈ units, u.Admitted .paired q) ∧
      bytes = units.flatMap Spelling.text ++ q.byte :: rest ∧ text = units.map Spelling.char ∧
      n = (units.flatMap Spelling.text).length + 1 := by
  induction bytes using body_induction q generalizing text n with
  | close rest =>
    rw [scanBody_close] at h
    cases h
    exact ⟨[], rest, by simp, rfl, rfl, rfl⟩
  | spelling u rest hu ih =>
    have hstep := scanBody_spelling hu rest
    rw [h] at hstep
    cases hr : scanBody q.byte rest with
    | error f =>
      rw [hr] at hstep
      obtain ⟨g, hg, -⟩ := hstep
      cases hg
    | ok r =>
      obtain ⟨text', m⟩ := r
      rw [hr] at hstep
      cases hstep
      obtain ⟨units, behind, hunits, rfl, rfl, rfl⟩ := ih hr
      refine ⟨u :: units, behind, ?_, by simp, rfl, by simp [Nat.add_assoc]⟩
      rintro v (_ | ⟨_, hv⟩)
      · exact hu
      · exact hunits v hv
  | stuck bytes cause k hstuck =>
    obtain ⟨stop, hscan⟩ := hstuck.scanBody
    rw [hscan] at h
    cases h

theorem continuable_of_scanBody {q : Quote} {bytes : List Byte} {f : Fault}
    (h : scanBody q.byte bytes = .error f) : Continuable q bytes f.offset := by
  induction bytes using body_induction q generalizing f with
  | close rest => rw [scanBody_close] at h; cases h
  | spelling u rest hu ih =>
    have hstep := scanBody_spelling hu rest
    rw [h] at hstep
    cases hr : scanBody q.byte rest with
    | error g =>
      rw [hr] at hstep
      obtain ⟨g', hg', -, ho⟩ := hstep
      cases hg'
      rw [ho]
      exact (ih hr).append hu.free
    | ok r =>
      rw [hr] at hstep
      cases hstep
  | stuck bytes cause k hstuck =>
    obtain ⟨stop, hscan⟩ := hstuck.scanBody
    rw [hscan] at h
    cases h
    exact hstuck.continuable

end LocatedJson.StringLiteral
