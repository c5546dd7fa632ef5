import LocatedJson.Proofs.Pieces

/-! The column of a message and the caret of an excerpt. Both go on from stop to stop, the one over
bytes and the other over the characters that these are shown as. A piece has no fewer bytes than the
one character it shows, and a later column no earlier stop, so that the caret never gets ahead of
the column; over ASCII bytes they go together. -/
namespace LocatedJson

theorem columnAfter_mono {tabSize : Int} (htab : 1 ≤ tabSize) {column column' : Int}
    (h : column ≤ column') (b : Byte) :
    columnAfter tabSize column b ≤ columnAfter tabSize column' b := by
  unfold columnAfter
  split_ifs
  · have hstop : column.fdiv tabSize ≤ column'.fdiv tabSize := by
      rw [Int.fdiv_eq_ediv_of_nonneg _ (by omega), Int.fdiv_eq_ediv_of_nonneg _ (by omega)]
      exact Int.ediv_le_ediv (by omega) h
    exact Int.mul_le_mul_of_nonneg_right (by omega) (by omega)
  · omega

namespace Text

def columnBehind (tabSize column : Int) (ch : Char) : Int :=
  if ch = '\t' then (column.fdiv tabSize + 1) * tabSize else column + 1

theorem nextStop_eq {width : Nat} (hwidth : 0 < width) (column : Nat) :
    ((column + (width - column % width) : Nat) : Int) =
      ((column : Int).fdiv width + 1) * width := by
  have hmod := Nat.mod_lt column hwidth
  have hdiv := Nat.div_add_mod column width
  have hnat : column + (width - column % width) = (column / width + 1) * width := by
    rw [Nat.add_mul, Nat.one_mul, Nat.mul_comm]
    omega
  rw [hnat, Int.fdiv_eq_ediv_of_nonneg _ (by omega)]
  push_cast
  rfl

/-- A line is as long, its tabs expanded, as its characters lead the column on. -/
theorem length_expandTabsFrom {width : Nat} (hwidth : 0 < width) (column : Nat) {text : List Char}
    (h : ∀ ch ∈ text, isLineEnd ch = false) :
    ((column + (expandTabsFrom width column text).length : Nat) : Int) =
      text.foldl (columnBehind width) column := by
  induction text generalizing column with
  | nil => simp [expandTabsFrom]
  | cons ch text ih =>
    obtain ⟨hch, htext⟩ := List.forall_mem_cons.1 h
    rw [List.foldl_cons, columnBehind, expandTabsFrom]
    by_cases htab : ch = '\t'
    · rw [if_pos htab, if_pos htab, ← nextStop_eq hwidth, ← ih _ htext]
      simp only [List.length_append, List.length_replicate]
      push_cast
      ring
    · have hend : ¬ (ch = '\n' || ch = '\r') = true := by
        simp [isLineEnd_eq_false_iff.1 hch]
      rw [if_neg htab, if_neg htab, if_neg hend, ← Int.natCast_succ, ← ih _ htext]
      simp only [List.length_cons]
      push_cast
      ring

theorem trimLineEnd_eq_self {text : List Char} (h : ∀ ch ∈ text, isLineEnd ch = false) :
    trimLineEnd text = text := by
  apply List.rdropWhile_eq_self_iff.2
  intro hne
  simp [h _ (List.getLast_mem hne)]

theorem columnBehind_ascii (tabSize column : Int) (b : Byte) :
    columnBehind tabSize column (Char.ofNat b.toNat) = columnAfter tabSize column b := by
  have hvalue : (Char.ofNat b.toNat).toNat = b.toNat :=
    Utf8.toNat_val_ofNat (.inl (by have := b.toNat_lt; omega))
  have htab : Char.ofNat b.toNat = '\t' ↔ b = Byte.tab := by
    rw [← Char.toNat_inj, hvalue, ← UInt8.toNat_inj]
    rfl
  simp only [columnBehind, columnAfter, htab]

end Text

namespace Utf8

open Text (columnBehind columnBehind_ascii)

variable {tabSize : Int}

theorem columnBehind_shown_le (htab : 1 ≤ tabSize) {column column' : Int} (h : column ≤ column')
    (lead : Byte) (tail : List Byte) :
    columnBehind tabSize column (firstPiece lead tail).shown ≤
      ((lead :: tail).take (firstPiece lead tail).width).foldl (columnAfter tabSize) column' := by
  rcases UInt8.lt_or_le lead 0x80 with hlead | hlead
  · rw [firstPiece_ascii hlead, codePoint_ascii]
    show columnBehind tabSize column (Char.ofNat lead.toNat) ≤ columnAfter tabSize column' lead
    rw [columnBehind_ascii]
    exact columnAfter_mono htab h lead
  · have hshown := (Text.isPlain_of_not_ascii (not_ascii_shown hlead tail)).1
    have hplain : Byte.tab ∉ (lead :: tail).take (firstPiece lead tail).width := by
      intro hmem
      exact absurd (not_ascii_of_mem_piece hlead tail _ hmem) (by decide)
    have hpos := width_firstPiece_pos lead tail
    rw [foldl_columnAfter_of_no_tab hplain, columnBehind, if_neg hshown,
      List.length_take_of_le (width_firstPiece_le lead tail)]
    omega

theorem foldl_columnBehind_le (htab : 1 ≤ tabSize) (bytes : List Byte) {column column' : Int}
    (h : column ≤ column') :
    (decodeReplacing bytes).foldl (columnBehind tabSize) column ≤
      bytes.foldl (columnAfter tabSize) column' := by
  induction bytes using piece_induction generalizing column column' with
  | nil => simpa using h
  | piece lead tail ih =>
    rw [decodeReplacing_cons, List.foldl_cons,
      ← List.take_append_drop (firstPiece lead tail).width (lead :: tail), List.foldl_append,
      List.take_append_drop]
    exact ih (columnBehind_shown_le htab h lead tail)

theorem foldl_columnBehind_ascii {bytes : List Byte} (h : ∀ b ∈ bytes, b < 0x80) (column : Int) :
    (decodeReplacing bytes).foldl (columnBehind tabSize) column =
      bytes.foldl (columnAfter tabSize) column := by
  induction bytes generalizing column with
  | nil => simp
  | cons b bytes ih =>
    obtain ⟨hb, hbytes⟩ := List.forall_mem_cons.1 h
    rw [decodeReplacing_cons_ascii hb, List.foldl_cons, List.foldl_cons, columnBehind_ascii,
      ih hbytes]

theorem isLineEnd_decodeReplacing {bytes : List Byte}
    (h : ∀ b ∈ bytes, b ≠ Byte.carriageReturn ∧ b ≠ Byte.lineFeed) :
    ∀ ch ∈ decodeReplacing bytes, Text.isLineEnd ch = false := by
  intro ch hch
  apply Text.isLineEnd_eq_false_iff.2
  constructor
  · rintro rfl
    exact (h _ (mem_of_mem_decodeReplacing (by decide) hch)).1 rfl
  · rintro rfl
    exact (h _ (mem_of_mem_decodeReplacing (by decide) hch)).2 rfl

end Utf8

namespace Contents

variable (c : Contents)

theorem caret_eq (tabSize : Int) (htab : 1 ≤ tabSize) (k : Nat)
    (h : ∀ b ∈ c.lineFront k, b ≠ Byte.carriageReturn ∧ b ≠ Byte.lineFeed) :
    ((c.excerpt tabSize k).caret : Int) =
      (Utf8.decodeReplacing (c.lineFront k)).foldl (Text.columnBehind tabSize) 0 := by
  have hplain := Utf8.isLineEnd_decodeReplacing h
  have hwidth : (tabSize.toNat : Int) = tabSize := by omega
  have hlength := Text.length_expandTabsFrom (show 0 < tabSize.toNat by omega) 0 hplain
  rw [hwidth, Nat.zero_add] at hlength
  rw [excerpt, excerptFront_eq_lineFront, Text.trimLineEnd_eq_self hplain]
  exact hlength

end Contents

theorem Excerpt.length_pointer (e : Excerpt) : e.pointer.length - 1 = e.caret := by
  rw [pointer, String.length_ofList, List.length_append, List.length_replicate]
  rfl

/-- On a line without carriage returns before the offset, the caret does not stand behind the column
that the message gives, and stands there if all bytes before the offset are ASCII. -/
theorem Source.caret_le_column {s : Source} {c : Contents} (hc : s.contents = some c)
    {tabSize : Int} (htab : 1 ≤ tabSize) (k : Nat)
    (hline : ∀ b ∈ c.lineFront k, b ≠ Byte.carriageReturn ∧ b ≠ Byte.lineFeed) :
    let caret := (s.excerpt tabSize k).pointer.length - 1
    ∃ p, s.position? tabSize k = some p ∧ (caret : Int) ≤ p.column ∧
      ((∀ b ∈ c.lineFront k, b < 0x80) → (caret : Int) = p.column) := by
  intro caret
  have hdefined : s.hasUndefinedStop tabSize k = false := by
    simp [hasUndefinedStop, show tabSize ≠ 0 by omega]
  have hcaret : (caret : Int) =
      (Utf8.decodeReplacing (c.lineFront k)).foldl (Text.columnBehind tabSize) 0 := by
    rw [← c.caret_eq tabSize htab k hline]
    simp only [caret, Excerpt.length_pointer, excerpt, hc]
  have hcolumn : (s.position tabSize k).column =
      (c.lineFront k).foldl (columnAfter tabSize) 0 := by
    simp only [position, hc, Contents.position]
  refine ⟨s.position tabSize k, by simp [position?, hdefined], ?_, fun hascii => ?_⟩
  · rw [hcaret, hcolumn]
    exact Utf8.foldl_columnBehind_le htab _ (Int.le_refl 0)
  · rw [hcaret, hcolumn, Utf8.foldl_columnBehind_ascii hascii]

def mixedLine : List Byte := [0x61, 0x0a, 0xc3, 0xa9, 0x09, 0x82, 0x62]

/-- With tabs of two columns, the tab behind one character and the tab behind two bytes go to
different stops; the caret stays two columns behind from there on. -/
theorem Source.caret_le_column_mixedLine :
    let s := Source.ofBytes "mixed.json" mixedLine
    (s.excerpt 2 (7 : Nat)).pointer.length - 1 = 4 ∧
      (∃ p, s.position? 2 (7 : Nat) = some p ∧ (4 : Int) ≤ p.column ∧ p.column = 6) ∧
      ∃ p, s.position? 2 (1 : Nat) = some p ∧
        (((s.excerpt 2 (1 : Nat)).pointer.length - 1 : Nat) : Int) = p.column := by
  intro s
  have hpointer : (s.excerpt 2 (7 : Nat)).pointer.length - 1 = 4 := by cbv
  have hposition : s.position? 2 (7 : Nat) = some ⟨1, 6⟩ := by cbv
  have hfront : (Contents.ofBytes mixedLine).lineFront (7 : Nat) =
      [0xc3, 0xa9, 0x09, 0x82, 0x62] := by cbv
  have hletter : (Contents.ofBytes mixedLine).lineFront (1 : Nat) = [0x61] := by cbv
  obtain ⟨p, hp, hle, -⟩ := Source.caret_le_column (s := s) (c := .ofBytes mixedLine) rfl
    (show (1 : Int) ≤ 2 by decide) 7 (by rw [hfront]; decide +kernel)
  obtain ⟨q, hq, -, heq⟩ := Source.caret_le_column (s := s) (c := .ofBytes mixedLine) rfl
    (show (1 : Int) ≤ 2 by decide) 1 (by rw [hletter]; decide +kernel)
  refine ⟨hpointer, ⟨p, hp, ?_, ?_⟩, q, hq, heq (by rw [hletter]; decide +kernel)⟩
  · rwa [hpointer] at hle
  · rw [hposition] at hp
    cases hp
    rfl

end LocatedJson
