import LocatedJson.Proofs.Machine.Buffer

/-! The machine reads strings as the scan does: the digits of an escape are there when they are
converted, their number is a character's when it is asked for one, and the loop over the body
ends. -/
namespace LocatedJson.Machine

open Grammar StringLiteral

variable {c : Contents} {o : Options} {l : Limits} {pos : Nat} {bytes : List Byte}

theorem checkHexDigit_none (h : c.text.drop pos = bytes) {i : Nat} (hi : bytes[i]? = none) :
    checkHexDigit c i pos = .error (.failed .unterminatedString c.size) c.size := by
  unfold checkHexDigit
  rw [bind_ok (peek_eq h i), hi]
  rfl

theorem checkHexDigit_some (h : c.text.drop pos = bytes) {i : Nat} {b : Byte}
    (hi : bytes[i]? = some b) :
    checkHexDigit c i pos =
      if b.isHexDigit then .ok () pos
      else .error (.failed (.expectedHexDigit b) (pos + i : Nat)) pos := by
  unfold checkHexDigit
  rw [bind_ok (peek_eq h i), hi]
  dsimp only
  rw [get_bind]
  split <;> rfl

/-- The digits from the `i`th on are asked one after the other until one is missing or wrong. -/
theorem checkHexDigits_eq (h : c.text.drop pos = bytes) (n i : Nat) {digits : List Byte}
    (hdigits : ((bytes.drop i).take n).takeWhile Byte.isHexDigit = digits) :
    checkHexDigits c i n pos =
      if digits.length = n then .ok () pos
      else
        match bytes.drop (i + digits.length) with
        | [] => .error (.failed .unterminatedString c.size) c.size
        | b :: _ =>
          .error (.failed (.expectedHexDigit b) (pos + (i + digits.length) : Nat)) pos := by
  induction n generalizing i digits with
  | zero =>
    rw [List.take_zero] at hdigits
    subst hdigits
    rfl
  | succ n ih =>
    unfold checkHexDigits
    cases hrest : bytes.drop i with
    | nil =>
      have hnone : bytes[i]? = none := by
        rw [← Nat.add_zero i, ← List.getElem?_drop, hrest, List.getElem?_nil]
      rw [hrest] at hdigits
      subst hdigits
      rw [bind_error (checkHexDigit_none h hnone)]
      simp [hrest]
    | cons b rest =>
      have hsome : bytes[i]? = some b := by
        rw [← Nat.add_zero i, ← List.getElem?_drop, hrest, List.getElem?_cons_zero]
      have hnext : bytes.drop (i + 1) = rest := by
        rw [← List.drop_drop, hrest, List.drop_one, List.tail_cons]
      have hcheck := checkHexDigit_some h hsome
      rw [hrest, List.take_succ_cons] at hdigits
      by_cases hb : b.isHexDigit = true
      · rw [if_pos hb] at hcheck
        rw [List.takeWhile_cons_of_pos hb, ← hnext] at hdigits
        subst hdigits
        rw [bind_ok hcheck, ih (i + 1) rfl, List.length_cons]
        simp only [Nat.add_right_cancel_iff, Nat.add_assoc, Nat.add_comm 1]
      · rw [if_neg hb] at hcheck
        rw [List.takeWhile_cons_of_neg hb] at hdigits
        subst hdigits
        rw [bind_error hcheck]
        simp [hrest]

theorem hexadecimal_digits (d : HexDigits) (pos : Nat) :
    hexadecimal d.bytes pos = .ok d.value pos := by
  have hne : d.bytes ≠ [] := by
    intro h
    have := d.length_eq
    simp [h] at this
  rw [hexadecimal, if_pos ⟨hne, List.all_eq_true.2 d.hex⟩, d.hexadecimalValue_bytes]
  rfl

theorem readHexDigits_digits {d : HexDigits} {rest : List Byte}
    (h : c.text.drop pos = d.bytes ++ rest) : readHexDigits c pos = .ok d.value (pos + 4) := by
  have hdigits : (((d.bytes ++ rest).drop 0).take 4).takeWhile Byte.isHexDigit = d.bytes := by
    rw [List.drop_zero, ← d.length_eq, List.take_left]
    exact List.takeWhile_eq_self_iff.2 d.hex
  have hcheck := checkHexDigits_eq h 4 0 hdigits
  rw [if_pos d.length_eq] at hcheck
  have hslice : slice c pos (pos + 4) = d.bytes := by
    rw [← d.length_eq]
    exact slice_eq h
  unfold readHexDigits
  rw [bind_ok hcheck, get_bind, hslice, bind_ok (hexadecimal_digits d pos)]
  rfl

theorem readHexDigits_agrees (h : c.text.drop pos = bytes) (hpos : pos ≤ c.size) :
    Agrees pos id (scanHexDigits bytes) (readHexDigits c pos) := by
  rcases scanHexDigits_cases bytes with ⟨d, rest, rfl⟩ | ⟨cause, k, hbroken⟩
  · rw [readHexDigits_digits h, scanHexDigits_append]
    rfl
  · obtain ⟨stop, hfault⟩ := hbroken.scanHexDigits
    have hcheck := checkHexDigits_eq h 4 0 rfl
    unfold scanHexDigits at hfault ⊢
    dsimp only at hfault ⊢
    split at hfault
    · cases hfault
    · rename_i hlen
      rw [if_neg hlen]
      rw [List.drop_zero, if_neg hlen, Nat.zero_add] at hcheck
      unfold readHexDigits
      cases hrest : bytes.drop ((bytes.take 4).takeWhile Byte.isHexDigit).length with
      | nil =>
        rw [hrest] at hcheck
        -- the digits reach to the end of the text
        have hend : pos + ((bytes.take 4).takeWhile Byte.isHexDigit).length = c.size := by
          have hlength := length_bytes h
          have hall := List.drop_eq_nil_iff.1 hrest
          have hle := (List.takeWhile_prefix (p := Byte.isHexDigit) (l := bytes.take 4)).length_le
          rw [List.length_take] at hle
          omega
        rw [← hend] at hcheck
        exact ⟨_, bind_error hcheck⟩
      | cons b tail =>
        rw [hrest] at hcheck
        exact ⟨pos, bind_error hcheck⟩

theorem readHexDigits_escape {rest : List Byte}
    (h : c.text.drop pos = Byte.backslash :: Byte.lowerU :: rest) :
    Agrees (pos + 2) id (scanHexDigits rest) (readHexDigits c (pos + 2)) := by
  have hlength := length_bytes h
  simp only [List.length_cons] at hlength
  exact readHexDigits_agrees (drop_cons (drop_cons h)) (by omega)

theorem character_valid {n : Nat} (h : n.isValidChar) (pos : Nat) :
    character n pos = .ok (Char.ofNat n) pos := by
  rw [character, if_pos h]
  rfl

theorem readLowSurrogate_agrees (h : c.text.drop pos = bytes) {high : HexDigits}
    (hhigh : high.IsHigh) :
    Agrees pos id (scanLowSurrogate high.value bytes) (readLowSurrogate c high.value pos) := by
  unfold readLowSurrogate
  rw [get_bind, bind_ok (peek_eq h 0), bind_ok (peek_eq h 1)]
  by_cases hescape : bytes[0]? = some Byte.backslash ∧ bytes[1]? = some Byte.lowerU
  · obtain ⟨rest, rfl⟩ : ∃ rest, bytes = Byte.backslash :: Byte.lowerU :: rest := by
      match bytes, hescape with
      | b :: b' :: rest, ⟨hfirst, hsecond⟩ =>
        exact ⟨rest, by rw [Option.some.inj hfirst, Option.some.inj hsecond]⟩
    have hhex := readHexDigits_escape h
    rw [if_pos hescape, step_bind, scanLowSurrogate_escape]
    rcases scanHexDigits_cases rest with ⟨low, tail, rfl⟩ | ⟨cause, k, hbroken⟩
    · rw [scanHexDigits_append] at hhex ⊢
      rw [bind_ok hhex]
      by_cases hlow : low.IsLow
      · simp only [id, (isLowSurrogate_value low).2 hlow, if_true]
        rw [character_valid (isValidChar_pair hhigh hlow), Nat.add_assoc, Agrees, id]
      · simp only [id, mt (isLowSurrogate_value low).1 hlow]
        exact ⟨_, rfl⟩
    · obtain ⟨stop, hfault⟩ := hbroken.scanHexDigits
      rw [hfault] at hhex ⊢
      exact hhex.bind_fault
  · have hne (rest : List Byte) : bytes ≠ Byte.backslash :: Byte.lowerU :: rest := by
      rintro rfl
      exact hescape ⟨rfl, rfl⟩
    rw [if_neg hescape, scanLowSurrogate_of_no_escape hne]
    exact ⟨pos, rfl⟩

/-- The backslash stands two bytes before the digits. -/
theorem readUnicodeEscape_agrees {rest : List Byte}
    (h : c.text.drop pos = Byte.backslash :: Byte.lowerU :: rest) (quote : Byte) :
    Agrees pos id (scanEscape quote (Byte.lowerU :: rest)) (readUnicodeEscape c (pos + 2)) := by
  have hrest : c.text.drop (pos + 2) = rest := drop_cons (drop_cons h)
  have hstart : ((pos + 2 : Nat) : Int) - 2 = (pos : Nat) := by omega
  have hhex := readHexDigits_escape h
  unfold readUnicodeEscape
  rw [get_bind, hstart, scanEscape_lowerU]
  rcases scanHexDigits_cases rest with ⟨d, tail, rfl⟩ | ⟨cause, k, hbroken⟩
  · have htail : c.text.drop (pos + 2 + 4) = tail := by
      rw [← d.length_eq]
      exact drop_append hrest
    rw [scanHexDigits_append] at hhex ⊢
    rw [bind_ok hhex]
    by_cases hlow : d.IsLow
    · simp only [id, (isLowSurrogate_value d).2 hlow, if_true]
      exact ⟨_, rfl⟩
    by_cases hhigh : d.IsHigh
    · simp only [id, mt (isLowSurrogate_value d).1 hlow, (isHighSurrogate_value d).2 hhigh, if_true,
        Bool.false_eq_true, if_false, drop_digits]
      have hlow := readLowSurrogate_agrees htail hhigh
      cases hscan : scanLowSurrogate d.value tail with
      | ok result =>
        rw [hscan] at hlow
        simpa only [Agrees, Nat.add_assoc] using hlow
      | error f =>
        rw [hscan] at hlow
        simpa only [Agrees, Fault.shift, Nat.add_assoc] using hlow
    · simp only [id, mt (isLowSurrogate_value d).1 hlow, mt (isHighSurrogate_value d).1 hhigh]
      exact character_valid (isValidChar_code hlow hhigh) _
  · obtain ⟨stop, hfault⟩ := hbroken.scanHexDigits
    rw [hfault] at hhex ⊢
    exact hhex.bind_fault

theorem readEscape_agrees {rest : List Byte} (h : c.text.drop pos = Byte.backslash :: rest)
    (quote : Byte) : Agrees pos id (scanEscape quote rest) (readEscape c quote pos) := by
  have hrest : c.text.drop (pos + 1) = rest := drop_cons h
  unfold readEscape
  rw [step_bind, bind_ok (peek_eq hrest 0)]
  cases rest with
  | nil => exact ⟨pos + 1, rfl⟩
  | cons b tail =>
    rw [List.getElem?_cons_zero]
    dsimp only
    by_cases hb : b = Byte.lowerU
    · subst hb
      rw [if_pos rfl, step_bind]
      exact readUnicodeEscape_agrees h quote
    · rw [if_neg hb, scanEscape_of_ne hb]
      cases shortEscape? quote b with
      | some char => rfl
      | none => exact ⟨pos + 1, rfl⟩

theorem readBody_escape (q : Quote) {text : List Char} {n rounds : Nat} {rest : List Byte}
    (h : c.text.drop (pos + n) = Byte.backslash :: rest)
    (hmore : ∀ {pos : Nat} {tail : List Byte}, c.text.drop pos = tail → tail.length ≤ rest.length →
      Agrees pos id (scanBody q.byte tail) (readBody c q.byte rounds pos)) :
    Agrees pos id (scanBehind q.byte text n (Byte.backslash :: rest))
      ((do
        let char ← readEscape c q.byte
        let more ← readBody c q.byte rounds
        return text ++ char :: more) (pos + n)) := by
  have hquote : Byte.backslash ≠ q.byte := by cases q <;> decide
  have hescape := readEscape_agrees h q.byte
  rw [scanBehind, if_neg hquote, if_pos rfl]
  rcases escape_cases q rest with ⟨u, front, tail, hu, hplain, htext, rfl⟩ | ⟨cause, k, hstuck⟩
  · have hwidth : u.text.length - 1 = front.length := by rw [htext]; rfl
    have htail : c.text.drop (pos + (n + u.text.length)) = tail := by
      rw [← Nat.add_assoc]
      apply drop_append
      rw [h, htext, List.cons_append]
    have hbody := hmore htail (by rw [List.length_append]; omega)
    rw [scanEscape_spelling hu htext hplain tail] at hescape ⊢
    rw [bind_ok hescape, Nat.add_assoc]
    dsimp only
    rw [hwidth, List.drop_left]
    cases hscan : scanBody q.byte tail with
    | ok result =>
      rw [hscan] at hbody
      rw [bind_ok hbody, Nat.add_assoc]
      rfl
    | error f =>
      rw [hscan] at hbody
      exact hbody.bind_fault
  · obtain ⟨stop, hfault⟩ := hstuck.scanEscape rfl
    rw [hfault] at hescape ⊢
    exact hescape.bind_fault

/-- Every round but the last takes a backslash, so that the rounds outnumber the bytes. -/
theorem readBody_agrees (q : Quote) (h : c.text.drop pos = bytes) (rounds : Nat)
    (hrounds : bytes.length < rounds) :
    Agrees pos id (scanBody q.byte bytes) (readBody c q.byte rounds pos) := by
  induction rounds generalizing pos bytes with
  | zero => exact absurd hrounds (Nat.not_lt_zero _)
  | succ rounds ih =>
    have hsplit := (List.takeWhile_append_dropWhile (p := isPlain q.byte) (l := bytes)).symm
    have hbehind := drop_append (h.trans hsplit)
    have hlength := length_bytes hbehind
    unfold readBody
    rw [get_bind, bind_ok (discard_ok (passRun_eq h (isPlain q.byte))), get_bind,
      slice_eq (h.trans hsplit), scanBody_eq]
    cases Utf8.decode (bytes.takeWhile (isPlain q.byte)) with
    | error distance => exact ⟨_, rfl⟩
    | ok text =>
      dsimp only
      generalize (bytes.takeWhile (isPlain q.byte)).length = n at *
      cases hrest : bytes.dropWhile (isPlain q.byte) with
      | nil =>
        rw [hrest] at hlength
        rw [if_pos (Nat.sub_eq_zero_iff_le.1 hlength.symm)]
        exact ⟨_, rfl⟩
      | cons b rest =>
        have hshort : rest.length < bytes.length := by
          have := congrArg List.length hsplit
          rw [List.length_append, hrest, List.length_cons] at this
          omega
        rw [hrest, List.length_cons] at hlength
        rw [hrest] at hbehind
        rw [if_neg (by omega), bind_ok (byteAt_eq hbehind _)]
        by_cases hquote : b = q.byte
        · rw [if_pos hquote, scanBehind, if_pos hquote]
          rfl
        rw [if_neg hquote]
        by_cases hslash : b = Byte.backslash
        · subst hslash
          rw [if_pos rfl]
          exact readBody_escape q hbehind fun htail hle => ih htail (by omega)
        · rw [if_neg hslash, scanBehind, if_neg hquote, if_neg hslash]
          exact ⟨_, rfl⟩

theorem readString_agrees (q : Quote) {rest : List Byte} (h : c.text.drop pos = q.byte :: rest) :
    Agrees pos id (StringLiteral.scan o l q.byte rest) (readString c o l pos) := by
  have hrest : c.text.drop (pos + 1) = rest := drop_cons h
  unfold readString
  rw [get_bind, bind_ok (byteAt_eq h pos)]
  by_cases hq : q.Admitted o
  · have hon : ¬ (q.byte = Byte.apostrophe && !o.singleQuotes) = true := by
      have := (admits_byte o q).2 hq
      simpa [admits, imp_iff_not_or] using this
    have hbody := readBody_agrees q hrest (c.size + 1) (by have := length_bytes hrest; omega)
    rw [if_neg hon, step_bind, scan_on hq]
    cases hscan : scanBody q.byte rest with
    | error f =>
      rw [hscan] at hbody
      exact hbody.bind_fault
    | ok result =>
      rw [hscan] at hbody
      rw [bind_ok hbody]
      simp only [id]
      cases l.violation? .stringLength result.1.length with
      | some cause => exact ⟨_, rfl⟩
      | none =>
        simp only [Agrees, id, ← Nat.add_assoc]
        rfl
  · have hoff : (q.byte = Byte.apostrophe && !o.singleQuotes) = true := by
      have := mt (admits_byte o q).1 hq
      simpa [admits, imp_iff_not_or] using this
    rw [if_pos hoff, scan_off hq]
    exact ⟨_, rfl⟩

end LocatedJson.Machine
