import LocatedJson.Proofs.Boundaries
import LocatedJson.Proofs.Positions

/-! Where the caret stands. Line and caret are decoded, trimmed and expanded apart from each other,
and agree because a failure lies between characters and a line begins behind an ASCII byte; they
part where carriage returns stand directly before the failure, which the caret does not count. -/
namespace LocatedJson

namespace Utf8

open String (utf8EncodeChar)

/-! Decoding around an ASCII byte. -/

theorem encodeChar_eq_singleton {c : Char} {b : Byte} (hb : b ∈ utf8EncodeChar c) (h : b < 0x80) :
    utf8EncodeChar c = [b] := by
  obtain ⟨lead, ranges, tail, hchar, hfollowers, hfits, -⟩ := exists_fits_encodeChar c
  have hlead : lead = b := eq_of_mem_encodeChar hb h (by simp [hchar])
  rw [hlead, followers, if_pos h] at hfollowers
  cases hfollowers
  cases hfits
  rw [hchar, hlead]

theorem WellFormed.behind_ascii {front rest : List Byte} {b : Byte} (hb : b < 0x80)
    (h : WellFormed (front ++ b :: rest)) : WellFormed rest := by
  obtain ⟨text, htext⟩ := h
  induction text generalizing front with
  | nil => simp [encode] at htext
  | cons c text ih =>
    rw [encode_cons] at htext
    rcases List.append_eq_append_iff.1 htext with ⟨within, hchar, hrest⟩ | ⟨more, -, hrest⟩
    · cases within with
      | nil =>
        have hfirst : [] ++ b :: rest = encode text := hrest
        exact ih hfirst
      | cons b' within =>
        obtain ⟨rfl, hbehind⟩ := List.cons.inj hrest
        -- the byte is a character by itself
        have hlength := congrArg List.length hchar
        rw [encodeChar_eq_singleton (b := b) (by simp [hchar]) hb] at hlength
        have hwithin : within = [] := by
          rw [← List.length_eq_zero_iff]
          simp only [List.length_append, List.length_cons, List.length_nil] at hlength
          omega
        rw [hwithin] at hbehind
        exact ⟨text, hbehind⟩
    · exact ih hrest.symm

theorem decodeReplacing_encodeChar_append (c : Char) (rest : List Byte) :
    decodeReplacing (utf8EncodeChar c ++ rest) = c :: decodeReplacing rest := by
  obtain ⟨lead, tail, h⟩ := List.exists_cons_of_ne_nil (String.utf8EncodeChar_ne_nil (c := c))
  have hdrop : (lead :: (tail ++ rest)).drop (tail.length + 1) = rest := by simp
  rw [h, List.cons_append, decodeReplacing, pieces_cons, firstPiece_encodeChar h rest, Piece.width,
    hdrop, List.map_cons, Piece.shown, decodeReplacing]

theorem decodeReplacing_encode_append (text : List Char) (rest : List Byte) :
    decodeReplacing (encode text ++ rest) = text ++ decodeReplacing rest := by
  induction text with
  | nil => rfl
  | cons c text ih =>
    rw [encode_cons, List.append_assoc, decodeReplacing_encodeChar_append, ih, List.cons_append]

theorem decodeReplacing_encode (text : List Char) : decodeReplacing (encode text) = text := by
  have h := decodeReplacing_encode_append text []
  simpa [decodeReplacing] using h

theorem low_of_mem_followers {lead : Byte} {ranges : List ByteRange}
    (h : followers lead = some ranges) : ∀ r ∈ ranges, 0x80 ≤ r.low := by
  unfold followers at h
  split_ifs at h <;> cases h <;> simp [continuation]

/-- An ASCII byte follows no lead byte, so that nothing behind it matters. -/
theorem fitting_append_ascii {ranges : List ByteRange} (hranges : ∀ r ∈ ranges, 0x80 ≤ r.low)
    {b : Byte} (hb : b < 0x80) (front rest : List Byte) :
    fitting ranges (front ++ b :: rest) = fitting ranges (front ++ [b]) ∧
      fitting ranges (front ++ [b]) ≤ front.length := by
  induction ranges generalizing front with
  | nil => simp [fitting]
  | cons r ranges ih =>
    obtain ⟨hr, hranges⟩ := List.forall_mem_cons.1 hranges
    cases front with
    | nil =>
      have hnot : r.contains b = false := by
        simp only [ByteRange.contains, Bool.and_eq_false_iff, decide_eq_false_iff_not]
        exact .inl fun hle => UInt8.not_le.2 hb (UInt8.le_trans hr hle)
      simp [fitting, hnot]
    | cons a front =>
      obtain ⟨heq, hle⟩ := ih hranges front
      simp only [List.cons_append, fitting, heq, List.length_cons, true_and]
      split
      · exact Nat.succ_le_succ hle
      · exact Nat.zero_le _

theorem firstPiece_append_ascii (lead : Byte) {b : Byte} (hb : b < 0x80) (front rest : List Byte) :
    firstPiece lead (front ++ b :: rest) = firstPiece lead (front ++ [b]) := by
  unfold firstPiece
  cases h : followers lead with
  | none => rfl
  | some ranges =>
    obtain ⟨heq, hle⟩ := fitting_append_ascii (low_of_mem_followers h) hb front rest
    dsimp only
    rw [heq, List.take_append_of_le_length hle, List.take_append_of_le_length hle]

theorem head?_decodeReplacing_cons (lead : Byte) (tail : List Byte) :
    (decodeReplacing (lead :: tail)).head? = some (firstPiece lead tail).shown := by
  rw [decodeReplacing, pieces_cons, List.map_cons, List.head?_cons]

theorem firstPiece_ascii {b : Byte} (hb : b < 0x80) (tail : List Byte) :
    firstPiece b tail = .char (Char.ofNat (codePoint b [])) 1 := by
  simp [firstPiece, followers, hb, fitting]

theorem head?_decodeReplacing_append {b : Byte} (hb : b < 0x80) (front rest : List Byte) :
    (decodeReplacing (front ++ b :: rest)).head? = (decodeReplacing (front ++ [b])).head? := by
  cases front with
  | nil =>
    rw [List.nil_append, List.nil_append, head?_decodeReplacing_cons, head?_decodeReplacing_cons,
      firstPiece_ascii hb, firstPiece_ascii hb]
  | cons lead front =>
    rw [List.cons_append, List.cons_append, head?_decodeReplacing_cons,
      head?_decodeReplacing_cons, firstPiece_append_ascii lead hb]

theorem encodeChar_return : utf8EncodeChar '\r' = [Byte.carriageReturn] := by
  rfl

theorem encodeChar_lineFeed : utf8EncodeChar '\n' = [Byte.lineFeed] := by
  rfl

theorem lineEnds_of_decodeReplacing {bytes : List Byte}
    (h : ∀ ch ∈ decodeReplacing bytes, Text.isLineEnd ch = true) :
    ∀ b ∈ bytes, b = Byte.carriageReturn ∨ b = Byte.lineFeed := by
  induction bytes using front_induction with
  | nil => nofun
  | char c rest ih =>
    rw [decodeReplacing_encodeChar_append, List.forall_mem_cons] at h
    refine List.forall_mem_append.2 ⟨?_, ih h.2⟩
    have hc : c = '\r' ∨ c = '\n' := by simpa [Text.isLineEnd] using h.1
    rcases hc with rfl | rfl
    · rw [encodeChar_return]
      exact List.forall_mem_singleton.2 (.inl rfl)
    · rw [encodeChar_lineFeed]
      exact List.forall_mem_singleton.2 (.inr rfl)
  | broken lead tail width hw =>
    have hshown : replacement ∈ decodeReplacing (lead :: tail) := by
      rw [decodeReplacing, pieces_cons, hw]
      exact List.mem_cons_self
    exact absurd (h _ hshown) (by simp [Text.isLineEnd, replacement])

end Utf8

namespace Text

theorem expandTabsFrom_append (width column : Nat) (front back : List Char) :
    ∃ column', expandTabsFrom width column (front ++ back) =
      expandTabsFrom width column front ++ expandTabsFrom width column' back := by
  induction front generalizing column with
  | nil => exact ⟨column, rfl⟩
  | cons ch front ih =>
    simp only [List.cons_append, expandTabsFrom]
    split
    · obtain ⟨column', h⟩ := ih (column + (width - column % width))
      exact ⟨column', by rw [h, List.append_assoc]⟩
    · split
      · obtain ⟨column', h⟩ := ih 0
        exact ⟨column', by rw [h, List.cons_append]⟩
      · obtain ⟨column', h⟩ := ih (column + 1)
        exact ⟨column', by rw [h, List.cons_append]⟩

theorem head?_expandTabsFrom {width : Nat} (hwidth : 0 < width) (column : Nat) (ch : Char)
    (rest : List Char) :
    (expandTabsFrom width column (ch :: rest)).head? = some (if ch = '\t' then ' ' else ch) := by
  rw [expandTabsFrom]
  split
  · have hfill : 0 < width - column % width := Nat.sub_pos_of_lt (Nat.mod_lt column hwidth)
    obtain ⟨fill, hfill⟩ := Nat.exists_eq_succ_of_ne_zero hfill.ne'
    show (List.replicate (width - column % width) ' ' ++ _).head? = some ' '
    rw [hfill, List.replicate_succ]
    rfl
  · split
    · rfl
    · rfl

theorem expandTabsFrom_returns (width column n : Nat) :
    expandTabsFrom width column (List.replicate n '\r') = List.replicate n '\r' := by
  induction n generalizing column with
  | zero => rfl
  | succ n ih => simp [List.replicate_succ, expandTabsFrom, ih]

theorem trimLineEnd_append {front back : List Char}
    (h : ∃ ch ∈ back, isLineEnd ch = false) :
    trimLineEnd (front ++ back) = front ++ trimLineEnd back := by
  have hkept : (back.reverse.dropWhile isLineEnd).isEmpty = false := by
    obtain ⟨ch, hch, hend⟩ := h
    rw [List.isEmpty_eq_false_iff, Ne, List.dropWhile_eq_nil_iff]
    intro hall
    rw [hall ch (List.mem_reverse.2 hch)] at hend
    cases hend
  simp [trimLineEnd, List.dropWhile_append, hkept]

theorem exists_trimLineEnd_eq_cons {text : List Char} (h : ∃ ch ∈ text, isLineEnd ch = false) :
    ∃ ch rest, trimLineEnd text = ch :: rest ∧ text.head? = some ch := by
  have hfront : trimLineEnd text <+: text := by
    rw [trimLineEnd, ← List.reverse_suffix, List.reverse_reverse]
    exact List.dropWhile_suffix isLineEnd
  cases htrim : trimLineEnd text with
  | nil =>
    obtain ⟨ch, hch, hend⟩ := h
    rw [trimLineEnd, List.reverse_eq_nil_iff, List.dropWhile_eq_nil_iff] at htrim
    rw [htrim ch (List.mem_reverse.2 hch)] at hend
    cases hend
  | cons ch rest =>
    obtain ⟨ends, hends⟩ := hfront
    rw [htrim] at hends
    exact ⟨ch, rest, rfl, by rw [← hends]; rfl⟩

theorem trimLineEnd_of_no_feed {text : List Char} (h : '\n' ∉ text) :
    trimLineEnd text = text.rdropWhile (· == '\r') := by
  induction text using List.reverseRecOn with
  | nil => rfl
  | append_singleton text ch ih =>
    rw [List.mem_append, not_or, List.mem_singleton] at h
    have hch : isLineEnd ch = (ch == '\r') := by simp [isLineEnd, Ne.symm h.2, beq_eq_decide]
    show List.rdropWhile isLineEnd (text ++ [ch]) = _
    rw [List.rdropWhile_concat, List.rdropWhile_concat, hch, ← ih h.1]
    rfl

theorem exists_returns {text : List Char} (h : '\n' ∉ text) :
    ∃ n, text = trimLineEnd text ++ List.replicate n '\r' := by
  have hreturns : text.rtakeWhile (· == '\r') =
      List.replicate (text.rtakeWhile (· == '\r')).length '\r' :=
    List.eq_replicate_iff.2 ⟨rfl, fun ch hch => by simpa using List.mem_rtakeWhile_imp hch⟩
  refine ⟨(text.rtakeWhile (· == '\r')).length, ?_⟩
  rw [trimLineEnd_of_no_feed h, ← hreturns, List.rdropWhile_append_rtakeWhile]

theorem isLineEnd_getLast_trimLineEnd (text : List Char) :
    ∀ ch ∈ (trimLineEnd text).getLast?, isLineEnd ch = false := by
  rw [trimLineEnd, List.getLast?_reverse]
  exact stops_dropWhile isLineEnd text.reverse

theorem length_expandTabs_append_returns (width : Int) (text : List Char) (n : Nat) :
    (expandTabs width (text ++ List.replicate n '\r')).length =
      (expandTabs width text).length + n := by
  obtain ⟨column, h⟩ := expandTabsFrom_append width.toNat 0 text (List.replicate n '\r')
  rw [expandTabs, h, expandTabsFrom_returns, List.length_append, List.length_replicate, expandTabs]

end Text

namespace Utf8

open String (utf8EncodeChar)

theorem encode_returns (n : Nat) :
    encode (List.replicate n '\r') = List.replicate n Byte.carriageReturn := by
  induction n with
  | zero => rfl
  | succ n ih => rw [List.replicate_succ, encode_cons, encodeChar_return, ih]; rfl

theorem getLast?_encode_ne_return {text : List Char}
    (h : ∀ ch ∈ text.getLast?, Text.isLineEnd ch = false) :
    ∀ b ∈ (encode text).getLast?, (b == Byte.carriageReturn) = false := by
  intro b hb
  rcases List.eq_nil_or_concat' text with rfl | ⟨text, ch, rfl⟩
  · cases hb
  · have hlast : encode [ch] = utf8EncodeChar ch := by rw [encode_cons]; exact List.append_nil _
    rw [encode_append, hlast, Option.mem_def,
      List.getLast?_append_of_ne_nil _ String.utf8EncodeChar_ne_nil] at hb
    rw [beq_eq_false_iff_ne]
    rintro rfl
    have hchar := encodeChar_eq_singleton (List.mem_of_getLast? hb) (by decide)
    rw [← hlast, ← encodeChar_return] at hchar
    have hreturn : [ch] = ['\r'] :=
      encode_injective (hchar.trans (by rw [encode_cons]; exact (List.append_nil _).symm))
    have hend := h ch (by simp)
    rw [List.singleton_inj.1 hreturn] at hend
    cases hend

end Utf8

/-- The caret leaves out the carriage returns at the end of the front, and nothing else. -/
theorem Text.length_expandTabs_trimLineEnd (width : Int) {bytes : List Byte}
    (hbytes : Utf8.WellFormed bytes) (hline : Byte.lineFeed ∉ bytes) :
    (expandTabs width (trimLineEnd (Utf8.decodeReplacing bytes))).length +
        (bytes.rtakeWhile (· == Byte.carriageReturn)).length =
      (expandTabs width (Utf8.decodeReplacing bytes)).length := by
  obtain ⟨text, rfl⟩ := hbytes
  rw [Utf8.decodeReplacing_encode]
  have hchars : '\n' ∉ text := by
    intro hmem
    apply hline
    rw [Utf8.encode, List.mem_flatMap]
    exact ⟨'\n', hmem, by rw [Utf8.encodeChar_lineFeed]; exact List.mem_singleton_self _⟩
  obtain ⟨n, hn⟩ := exists_returns hchars
  have hrun : (Utf8.encode text).rtakeWhile (· == Byte.carriageReturn) =
      List.replicate n Byte.carriageReturn := by
    have hstops : Stops (· == Byte.carriageReturn) (Utf8.encode (trimLineEnd text)).reverse := by
      rw [Stops, List.head?_reverse]
      exact Utf8.getLast?_encode_ne_return (isLineEnd_getLast_trimLineEnd text)
    have hsplit : (Utf8.encode text).reverse = List.replicate n Byte.carriageReturn ++
        (Utf8.encode (trimLineEnd text)).reverse := by
      conv_lhs => rw [hn]
      rw [Utf8.encode_append, Utf8.encode_returns, List.reverse_append, List.reverse_replicate]
    rw [List.rtakeWhile, hsplit, takeWhile_append_stop (by simp) hstops, List.reverse_replicate]
  rw [hrun, List.length_replicate]
  conv_rhs => rw [hn]
  rw [length_expandTabs_append_returns]

theorem take_append_cons_drop {α : Type} {l : List α} {i : Nat} {a : α} (h : l[i]? = some a) :
    l.take i ++ a :: l.drop (i + 1) = l := by
  obtain ⟨hlt, rfl⟩ := List.getElem?_eq_some_iff.1 h
  rw [List.getElem_cons_drop, List.take_append_drop]

namespace Contents

variable (c : Contents)

theorem lt_endOf_lineOf {k : Nat} (h : k < c.size) : k < c.endOf (c.lineOf k) := by
  have hbrackets := c.brackets_lineOf k
  unfold endOf
  cases hstart : c.starts[c.lineOf k]? with
  | none => exact h
  | some start =>
    obtain ⟨hlt, rfl⟩ := Array.getElem?_eq_some_iff.1 hstart
    have hbehind := hbrackets.behind _ hlt (Nat.le_refl _)
    rw [Option.getD_some]
    omega

theorem startOf_lineOf_cases (index : Int) :
    c.startOf (c.lineOf index) = 0 ∨ c.startOf (c.lineOf index) ∈ c.starts.toList := by
  by_cases hline : c.lineOf index = 0
  · exact .inl (if_pos hline)
  · exact .inr (c.startOf_lineOf_mem hline).1

def lineBack (k : Nat) : List Byte := (c.text.take (c.endOf (c.lineOf k))).drop k

theorem lineFront_append_lineBack {k : Nat} (h : k < c.size) :
    c.lineFront k ++ c.lineBack k =
      Bytes.slice c.buffer (c.startOf (c.lineOf k)) (c.endOf (c.lineOf k)) := by
  have hstart := c.startOf_lineOf_le k (by omega)
  have hend := c.lt_endOf_lineOf h
  have hfront : (c.text.take (c.endOf (c.lineOf k))).take k = c.text.take k := by
    rw [List.take_take, Nat.min_eq_left hend.le]
  have hlength : c.startOf (c.lineOf k) ≤ (c.text.take k).length := by
    rw [List.length_take, length_text]
    omega
  rw [← c.slice_text (by omega) (by omega) (by exact_mod_cast c.endOf_le _), lineFront_eq c h.le,
    lineBack, ← List.drop_append_of_le_length hlength, ← hfront, List.take_append_drop, Bytes.slice,
    Bytes.fromFront_of_nonneg _ (by omega), Bytes.fromFront_of_nonneg _ (by omega)]
  rfl

theorem wellFormed_lineFront {k : Nat} (hk : k ≤ c.size)
    (h : Utf8.WellFormed (c.text.take k)) : Utf8.WellFormed (c.lineFront k) := by
  have hstart := c.startOf_lineOf_le k (by omega)
  rw [lineFront_eq c hk]
  rcases c.startOf_lineOf_cases k with hzero | hmem
  · rwa [hzero, List.drop_zero]
  · obtain ⟨i, hi, hline, -⟩ := c.mem_starts.1 hmem
    have hfront : (c.text.take k)[i]? = some Byte.lineFeed := by
      rw [List.getElem?_take_of_lt (by omega), hi]
    rw [hline]
    rw [← take_append_cons_drop hfront] at h
    exact h.behind_ascii (by decide)

theorem lineFeed_notMem_lineFront {k : Nat} (h : k < c.size) : Byte.lineFeed ∉ c.lineFront k := by
  have hmin : min (k : Int) c.size = k := by omega
  simp only [lineFront, hmin]
  exact c.lineFeed_notMem_slice (by omega) (by omega)

theorem head?_decodeReplacing_lineBack {k : Nat} (h : k < c.size) :
    (Utf8.decodeReplacing (c.text.drop k)).head? =
      (Utf8.decodeReplacing (c.lineBack k)).head? := by
  have hend := c.lt_endOf_lineOf h
  rw [lineBack]
  cases hstart : c.starts[c.lineOf k]? with
  | none =>
    have hsize : c.endOf (c.lineOf k) = c.text.length := by
      rw [endOf, hstart, length_text]
      rfl
    rw [hsize, List.take_length]
  | some start =>
    have hstop : c.endOf (c.lineOf k) = start := by rw [endOf, hstart]; rfl
    obtain ⟨i, hi, rfl, -⟩ := c.mem_starts.1 (Array.mem_toList_iff.2 (Array.mem_of_getElem? hstart))
    have hlength : k ≤ (c.text.take i).length := by
      obtain ⟨hlt, -⟩ := List.getElem?_eq_some_iff.1 hi
      rw [List.length_take]
      omega
    have hline : (c.text.take (i + 1)).drop k = (c.text.take i).drop k ++ [Byte.lineFeed] := by
      rw [List.take_add_one, hi, Option.toList_some, List.drop_append_of_le_length hlength]
    have htext : c.text.drop k =
        (c.text.take i).drop k ++ Byte.lineFeed :: c.text.drop (i + 1) := by
      rw [← List.drop_append_of_le_length hlength, take_append_cons_drop hi]
    rw [hstop, hline, htext, Utf8.head?_decodeReplacing_append (by decide)]

/-- The line of an offset, shown: its front, and then what is decoded at the offset. -/
theorem exists_expandTabs_lineText {tabSize : Int} (htab : 0 < tabSize) {k : Nat} (h : k < c.size)
    (hfront : Utf8.WellFormed (c.text.take k))
    (hback : ∃ b ∈ c.lineBack k, b ≠ Byte.carriageReturn ∧ b ≠ Byte.lineFeed) :
    ∃ ch back, (Utf8.decodeReplacing (c.text.drop k)).head? = some ch ∧
      Text.expandTabs tabSize (c.lineText (c.lineOf k)) =
        Text.expandTabs tabSize (Utf8.decodeReplacing (c.lineFront k)) ++ back ∧
      back.head? = some (if ch = '\t' then ' ' else ch) := by
  obtain ⟨text, htext⟩ := c.wellFormed_lineFront h.le hfront
  have hkept : ∃ ch ∈ Utf8.decodeReplacing (c.lineBack k), Text.isLineEnd ch = false := by
    by_contra hall
    push Not at hall
    obtain ⟨b, hb, hreturn, hfeed⟩ := hback
    have hends := Utf8.lineEnds_of_decodeReplacing
      (fun ch hch => eq_true_of_ne_false (hall ch hch)) b hb
    exact hends.elim hreturn hfeed
  have hline : c.lineText (c.lineOf k) =
      text ++ Text.trimLineEnd (Utf8.decodeReplacing (c.lineBack k)) := by
    have hle := (c.brackets_lineOf k).high_le
    rw [lineText, if_neg (by simp; omega), Int.toNat_natCast, ← c.lineFront_append_lineBack h,
      htext]
    dsimp only
    rw [Utf8.decodeReplacing_encode_append, Text.trimLineEnd_append hkept]
  obtain ⟨ch, rest, htrim, hhead⟩ := Text.exists_trimLineEnd_eq_cons hkept
  obtain ⟨column, hexpand⟩ := Text.expandTabsFrom_append tabSize.toNat 0 text (ch :: rest)
  refine ⟨ch, Text.expandTabsFrom tabSize.toNat column (ch :: rest), ?_, ?_, ?_⟩
  · rw [c.head?_decodeReplacing_lineBack h, hhead]
  · rw [hline, htrim, htext, Utf8.decodeReplacing_encode]
    exact hexpand
  · exact Text.head?_expandTabsFrom (by omega) column ch rest

theorem excerptFront_eq_lineFront (k : Nat) : c.excerptFront k = c.lineFront k := by
  have hstart := c.startOf_lineOf_le k (by omega)
  have hle := c.startOf_le (c.lineOf k)
  have hmax : max (c.startOf (c.lineOf k) : Int) (min k c.size) = min (k : Int) c.size := by omega
  simp only [excerptFront, lineFront, lineStart, lineOf_min, hmax]

end Contents

theorem length_rtakeWhile_eq_zero_iff {l : List Byte} {b : Byte} :
    (l.rtakeWhile (· == b)).length = 0 ↔ l.getLast? ≠ some b := by
  rcases List.eq_nil_or_concat' l with rfl | ⟨l, a, rfl⟩
  · simp
  · by_cases h : a = b
    · simp [h]
    · simp [h]

/-- The line is shown with the character decoded at the failure behind the characters of its front,
and the caret is short of it by the carriage returns directly before the failure. -/
theorem Source.parse_failure_caret {s : Source} {c : Contents} (hc : s.contents = some c)
    {levels : Nat} {config : Config} (hexcerpt : config.reporting.withExcerpt = true)
    {failure : Failure} {report : Report}
    (h : s.parse levels config = .error (.rejected failure (.ok report)))
    (hback : ∃ b ∈ c.lineBack failure.offset, b ≠ Byte.carriageReturn ∧ b ≠ Byte.lineFeed) :
    let front := c.lineFront failure.offset
    let shown := Text.expandTabs config.reporting.tabSize.val (Utf8.decodeReplacing front)
    ∃ (e : Excerpt) (ch : Char), report.excerpt = some e ∧ e.pointer.length - 1 = e.caret ∧
      (Utf8.decodeReplacing (c.text.drop failure.offset)).head? = some ch ∧
      (e.line.drop shown.length).head? = some (if ch = '\t' then ' ' else ch) ∧
      e.caret + (front.rtakeWhile (· == Byte.carriageReturn)).length = shown.length ∧
      (e.caret = shown.length ↔ front.getLast? ≠ some Byte.carriageReturn) := by
  intro front shown
  obtain ⟨hfailure, hreport⟩ := (Source.parse_eq_error hc).1 h
  obtain ⟨-, rfl⟩ := Report.ofFailure_eq_ok_iff.1 hreport.symm
  have hclean := parseText_clean hfailure
  have hk : failure.offset < c.size := by
    obtain ⟨b, hb, -⟩ := hback
    have hlength := List.length_pos_of_mem hb
    rw [Contents.lineBack, List.length_drop, List.length_take, Contents.length_text] at hlength
    omega
  obtain ⟨ch, back, hch, hline, hhead⟩ := c.exists_expandTabs_lineText
    (Int.natCast_pos.2 config.reporting.tabSize.property) hk hclean.wellFormed hback
  have hcaret : (c.excerpt config.reporting.tabSize.val failure.offset).caret +
      (front.rtakeWhile (· == Byte.carriageReturn)).length = shown.length := by
    rw [Contents.excerpt, c.excerptFront_eq_lineFront]
    exact Text.length_expandTabs_trimLineEnd _ (c.wellFormed_lineFront hk.le hclean.wellFormed)
      (c.lineFeed_notMem_lineFront hk)
  refine ⟨c.excerpt config.reporting.tabSize.val failure.offset, ch, ?_, ?_, hch, ?_, hcaret, ?_⟩
  · rw [Report.complete, if_pos hexcerpt, Source.excerpt, hc]
  · rw [Excerpt.pointer, String.length_ofList, List.length_append, List.length_replicate]
    rfl
  · rw [Contents.excerpt, hline, List.drop_left, hhead]
  · rw [← length_rtakeWhile_eq_zero_iff]
    omega

def tabbedFault : List Byte := [0x5b, 0x0a, 0x0d, 0x09, 0xc3, 0xa9]

/-- The carriage return counts, the tab goes on to the next stop behind it. -/
theorem Source.parse_tabbedFault_caret :
    ∃ (report : Report) (e : Excerpt), (Source.ofBytes "tabbed.json" tabbedFault).parse 256
        { reporting := { withExcerpt := true } } =
          .error (.rejected ⟨.unexpectedCharacter 0xc3, 4⟩ (.ok report)) ∧
      report.excerpt = some e ∧ e.caret = 9 ∧ (e.line.drop 9).head? = some 'é' := by
  have hposition : (Source.ofBytes "tabbed.json" tabbedFault).position (8 : Nat) (4 : Nat) =
      ⟨1, 8⟩ := by cbv
  have hshows : Reporting.Shows { withExcerpt := true } (.ofBytes "tabbed.json" tabbedFault)
      (4 : Nat) :=
    Reporting.shows_of_lt hposition (by decide) (by decide) (by decide)
  have hparse : (Source.ofBytes "tabbed.json" tabbedFault).parse 256
      { reporting := { withExcerpt := true } } =
        .error (.rejected ⟨.unexpectedCharacter 0xc3, 4⟩ (.ok _)) :=
    (Source.parse_eq_error rfl).2 ⟨by cbv, (Report.ofFailure_ok hshows).symm⟩
  have hback : (Contents.ofBytes tabbedFault).lineBack 4 = [0xc3, 0xa9] := by cbv
  have hfront : (Contents.ofBytes tabbedFault).lineFront (4 : Nat) = [0x0d, 0x09] := by cbv
  have hshown : (Text.expandTabs ((8 : Nat) : Int)
      (Utf8.decodeReplacing [0x0d, 0x09])).length = 9 := by cbv
  have hdecoded : (Utf8.decodeReplacing ((Contents.ofBytes tabbedFault).text.drop 4)).head? =
      some 'é' := by cbv
  obtain ⟨e, ch, he, -, hch, hhead, -, hcaret⟩ := Source.parse_failure_caret rfl rfl hparse
    ⟨0xc3, by rw [hback]; exact List.mem_cons_self, by decide⟩
  obtain rfl := Option.some.inj (hch.symm.trans hdecoded)
  rw [hfront] at hhead hcaret
  exact ⟨_, e, hparse, he, (hcaret.2 (by decide)).trans hshown, hshown ▸ hhead⟩

def returnedFault : List Byte := [0x0d, 0x78]

/-- The caret stands under the carriage return and not under the letter. -/
theorem Source.parse_returnedFault_short :
    ∃ report : Report, (Source.ofBytes "returned.json" returnedFault).parse 256
        { reporting := { withExcerpt := true } } =
          .error (.rejected ⟨.unexpectedCharacter 0x78, 1⟩ (.ok report)) ∧
      report.excerpt = some ⟨['\r', 'x'], 0⟩ ∧
      (Contents.ofBytes returnedFault).lineBack 1 = [0x78] ∧
      (Text.expandTabs 8 (Utf8.decodeReplacing
        ((Contents.ofBytes returnedFault).lineFront 1))).length = 1 := by
  have hposition : (Source.ofBytes "returned.json" returnedFault).position (8 : Nat) (1 : Nat) =
      ⟨0, 1⟩ := by cbv
  have hshows : Reporting.Shows { withExcerpt := true } (.ofBytes "returned.json" returnedFault)
      (1 : Nat) :=
    Reporting.shows_of_lt hposition (by decide) (by decide) (by decide)
  have hexcerpt : (Contents.ofBytes returnedFault).excerpt 8 1 = ⟨['\r', 'x'], 0⟩ := by cbv
  exact ⟨_, (Source.parse_eq_error rfl).2 ⟨by cbv, (Report.ofFailure_ok hshows).symm⟩,
    congrArg some hexcerpt, by cbv, by cbv⟩

end LocatedJson
