import LocatedJson.Proofs.LineIndex

/-! Positions. A byte alone leads from the position before it to the one behind it, so that the
line index saves the way from the beginning and changes nothing. Every byte moves the position on,
and no two offsets of a text are shown as the same place. -/
namespace LocatedJson

theorem foldl_columnAfter_of_no_tab {bytes : List Byte} (h : Byte.tab ∉ bytes)
    (tabSize column : Int) :
    bytes.foldl (columnAfter tabSize) column = column + bytes.length := by
  induction bytes generalizing column with
  | nil => simp
  | cons b bytes ih =>
    rw [List.mem_cons, not_or] at h
    rw [List.foldl_cons, ih h.2, columnAfter, if_neg (Ne.symm h.1), List.length_cons]
    push_cast
    ring

namespace Position

/-- The position behind the byte at an offset of a text of `size` bytes: a line feed with text
behind it begins a line, a tab goes to the next stop, and any other byte is one wide. -/
def next (tabSize : Int) (size : Nat) (p : Position) : Byte × Nat → Position
  | (b, i) =>
    if b = Byte.lineFeed ∧ i + 1 < size then ⟨p.line + 1, 0⟩
    else if b = Byte.tab then ⟨p.line, (p.column.fdiv tabSize + 1) * tabSize⟩
    else ⟨p.line, p.column + 1⟩

/-- The position that the bytes before it lead to, one after the other. -/
def scan (tabSize : Int) (size : Nat) (bytes : List Byte) : Position :=
  bytes.zipIdx.foldl (next tabSize size) ⟨0, 0⟩

theorem scan_concat (tabSize : Int) (size : Nat) (bytes : List Byte) (b : Byte) :
    scan tabSize size (bytes ++ [b]) =
      (scan tabSize size bytes).next tabSize size (b, bytes.length) := by
  simp [scan, List.zipIdx_append]

theorem next_eq_newLine {tabSize : Int} {size i : Nat} {b : Byte} (p : Position)
    (h : b = Byte.lineFeed ∧ i + 1 < size) : p.next tabSize size (b, i) = ⟨p.line + 1, 0⟩ :=
  if_pos h

theorem next_eq_columnAfter {tabSize : Int} {size i : Nat} {b : Byte} (p : Position)
    (h : ¬ (b = Byte.lineFeed ∧ i + 1 < size)) :
    p.next tabSize size (b, i) = ⟨p.line, columnAfter tabSize p.column b⟩ := by
  simp only [next, if_neg h, columnAfter]
  split <;> rfl

def key (p : Position) : ℕ ×ₗ ℤ := toLex (p.line, p.column)

theorem key_lt_next {tabSize : Int} (h : 1 ≤ tabSize) (size : Nat) (p : Position) (b : Byte)
    (i : Nat) : p.key < (p.next tabSize size (b, i)).key := by
  by_cases hnew : b = Byte.lineFeed ∧ i + 1 < size
  · rw [next_eq_newLine p hnew]
    exact Prod.Lex.toLex_lt_toLex.2 (.inl (Nat.lt_succ_self _))
  · rw [next_eq_columnAfter p hnew]
    exact Prod.Lex.toLex_lt_toLex.2 (.inr ⟨rfl, lt_columnAfter h p.column b⟩)

end Position

theorem colon_notMem_toString (n : Int) : ':' ∉ (toString n).toList := by
  have hdigits (k : Nat) : ':' ∉ (Nat.repr k).toList := by
    rw [Nat.repr_eq_ofList_toDigits, String.toList_ofList]
    intro hmem
    exact absurd (Nat.isDigit_of_mem_toDigits (by decide) (by decide) hmem) (by decide)
  rw [Int.toString_eq_repr, Int.repr_eq_if]
  split_ifs
  · exact hdigits _
  · rw [String.toList_append, List.mem_append, not_or]
    exact ⟨by decide, hdigits _⟩

theorem Position.render_injective : Function.Injective Position.render := by
  rintro ⟨line, column⟩ ⟨line', column'⟩ h
  have hcolon : ":".toList = [':'] := rfl
  have hlist := congrArg String.toList h
  simp only [render, lineColumnText, String.toList_append, List.append_assoc, hcolon,
    List.singleton_append] at hlist
  obtain ⟨hline, -, hcolumn⟩ := (List.append_cons_inj_of_notMem (colon_notMem_toString _)
    (colon_notMem_toString _)).1 hlist
  rw [String.toList_inj, Int.toString_eq_repr, Int.toString_eq_repr, Int.repr_inj] at hline hcolumn
  rw [Position.mk.injEq]
  omega

namespace Contents

variable (c : Contents) (tabSize : Int)

theorem lineFront_eq {n : Nat} (h : n ≤ c.size) :
    c.lineFront n = (c.text.take n).drop (c.startOf (c.lineOf n)) := by
  have hmin : min (n : Int) c.size = n := by omega
  simp only [lineFront, lineStart, hmin, Bytes.slice, text, List.take_take, Nat.min_eq_left h]
  rw [Bytes.fromFront_of_nonneg _ (by omega), Bytes.fromFront_of_nonneg _ (by omega)]
  simp

theorem position_eq {n : Nat} (h : n ≤ c.size) :
    c.position tabSize n = ⟨c.lineOf n,
      ((c.text.take n).drop (c.startOf (c.lineOf n))).foldl (columnAfter tabSize) 0⟩ := by
  have hmin : min (n : Int) c.size = n := by omega
  rw [position, lineFront_eq c h, lineStart, hmin]

theorem position_min (index : Nat) :
    c.position tabSize index = c.position tabSize (min index c.size : Nat) := by
  have hmin : min ((min index c.size : Nat) : Int) c.size = min (index : Int) c.size := by omega
  simp only [position, lineFront, hmin]

theorem position_zero : c.position tabSize (0 : Nat) = ⟨0, 0⟩ := by
  rw [position_eq c tabSize (Nat.zero_le _), Nat.cast_zero, lineOf_zero]
  simp

theorem succ_mem_starts {n : Nat} (h : n < c.text.length) :
    n + 1 ∈ c.starts.toList ↔ c.text[n] = Byte.lineFeed ∧ n + 1 < c.size := by
  rw [mem_starts]
  constructor
  · rintro ⟨i, hi, hn, hlt⟩
    obtain rfl : n = i := by omega
    rw [List.getElem?_eq_getElem h] at hi
    exact ⟨Option.some.inj hi, hlt⟩
  · rintro ⟨hb, hlt⟩
    exact ⟨n, by rw [List.getElem?_eq_getElem h, hb], rfl, hlt⟩

theorem position_succ {n : Nat} (h : n < c.text.length) :
    c.position tabSize (n + 1 : Nat) =
      (c.position tabSize n).next tabSize c.size (c.text[n], n) := by
  have hsize : n < c.size := by rwa [length_text] at h
  have hline := c.lineOf_succ n
  rw [position_eq c tabSize (Nat.succ_le_of_lt hsize), position_eq c tabSize hsize.le]
  by_cases hnew : n + 1 ∈ c.starts.toList
  · -- the line that begins here is the line of the offset
    have hle := c.le_startOf_lineOf hnew (n + 1 : Nat) (by omega)
    have hge := c.startOf_lineOf_le (n + 1 : Nat) (by omega)
    have hstart : c.startOf (c.lineOf (n + 1 : Nat)) = n + 1 := by omega
    rw [Position.next_eq_newLine _ ((c.succ_mem_starts h).1 hnew), hstart, hline, if_pos hnew]
    simp
  · have hge := c.startOf_lineOf_le n (by omega)
    have hstart : c.startOf (c.lineOf n) ≤ (c.text.take n).length := by
      rw [List.length_take]
      omega
    simp only [if_neg hnew, add_zero] at hline
    rw [Position.next_eq_columnAfter _ (mt (c.succ_mem_starts h).2 hnew), hline,
      ← List.take_concat_get' c.text n h, List.drop_append_of_le_length hstart, List.foldl_append]
    rfl

theorem position_eq_scan {n : Nat} (h : n ≤ c.size) :
    c.position tabSize n = .scan tabSize c.size (c.text.take n) := by
  induction n with
  | zero => exact position_zero c tabSize
  | succ n ih =>
    have hlt : n < c.text.length := by
      rw [length_text]
      omega
    rw [position_succ c tabSize hlt, ih (by omega), ← List.take_concat_get' c.text n hlt,
      Position.scan_concat, List.length_take, Nat.min_eq_left hlt.le]

theorem key_position_strictMonoOn (htab : 1 ≤ tabSize) :
    StrictMonoOn (fun k : Nat => (c.position tabSize k).key) (Set.Iic c.size) := by
  apply strictMonoOn_of_lt_add_one Set.ordConnected_Iic
  intro k _ _ hk
  have hlt : k < c.text.length := by
    rw [length_text]
    exact Nat.lt_of_succ_le hk
  rw [position_succ c tabSize hlt]
  exact Position.key_lt_next htab ..

end Contents

/-- The position of an offset is what a scan of all the bytes before it comes to. Where the line
has no tab before the offset, its column is the distance from the line's start. -/
theorem Source.position?_eq_scan {s : Source} {c : Contents} (hc : s.contents = some c)
    (tabSize : Int) (htab : tabSize ≠ 0) (index : Nat) :
    s.position? tabSize index = some (.scan tabSize c.size (c.buffer.take (min index c.size))) ∧
      (Byte.tab ∉ c.lineFront index →
        (s.position tabSize index).column = (c.lineFront index).length) := by
  have hposition (index : Int) : s.position tabSize index = c.position tabSize index := by
    rw [position, hc]
  constructor
  · have hdefined : s.hasUndefinedStop tabSize index = false := by simp [hasUndefinedStop, htab]
    have htext : c.text.take (min index c.size) = c.buffer.take (min index c.size) := by
      rw [Contents.text, List.take_take, Nat.min_eq_left (Nat.min_le_right _ _)]
    simp only [position?, hdefined, Bool.false_eq_true, ↓reduceIte]
    rw [hposition, Contents.position_min,
      Contents.position_eq_scan c tabSize (Nat.min_le_right _ _), htext]
  · intro hplain
    rw [hposition, Contents.position, foldl_columnAfter_of_no_tab hplain, zero_add]

def tabbedLines : List Byte := [0x61, 0x0a, 0x09, 0x62, 0x0a, 0x63]

def tabbedSource : Source := ⟨"tabbed.json", some (.window tabbedLines 5 (by decide))⟩

theorem Source.position?_tabbedSource :
    tabbedSource.position? 4 (9 : Nat) = some ⟨1, 6⟩ ∧
      tabbedSource.position? (-3) (3 : Nat) = some ⟨1, -3⟩ := by
  have hend := (Source.position?_eq_scan (s := tabbedSource) rfl 4 (by decide) 9).1
  have htab := (Source.position?_eq_scan (s := tabbedSource) rfl (-3) (by decide) 3).1
  exact ⟨hend, htab⟩

/-- Later offsets have later positions, so that no two offsets of a text are shown as one place, and
every position is in one of the lines. -/
theorem Source.position_strictMonoOn {s : Source} {c : Contents} (hc : s.contents = some c)
    (tabSize : Int) (htab : 1 ≤ tabSize) :
    StrictMonoOn (fun k : Nat => (s.position tabSize k).key) (Set.Iic s.size) ∧
      Set.InjOn (fun k : Nat => (s.position tabSize k).render) (Set.Iic s.size) ∧
      Set.InjOn (fun k : Nat => s.locate tabSize k) (Set.Iic s.size) ∧
      ∀ k : Nat, (s.position tabSize k).line < s.lineCount := by
  have hposition (index : Int) : s.position tabSize index = c.position tabSize index := by
    rw [position, hc]
  have hsize : s.size = c.size := by simp [size, hc]
  have hmono : StrictMonoOn (fun k : Nat => (s.position tabSize k).key) (Set.Iic s.size) := by
    simp only [hposition, hsize]
    exact c.key_position_strictMonoOn tabSize htab
  have hrender : Set.InjOn (fun k : Nat => (s.position tabSize k).render) (Set.Iic s.size) := by
    intro j hj k hk h
    exact hmono.injOn hj hk (congrArg Position.key (Position.render_injective h))
  refine ⟨hmono, hrender, ?_, ?_⟩
  · intro j hj k hk h
    exact hrender hj hk ((String.append_right_inj _).1 h)
  · intro k
    have hline := c.lineOf_le (min (k : Int) c.size)
    simp only [hposition, lineCount, hc, Option.map_some, Option.getD_some]
    exact Nat.lt_succ_of_le hline

theorem Source.position_tabbedSource_strictMonoOn :
    (tabbedSource.position 4 (4 : Nat)).key < (tabbedSource.position 4 (5 : Nat)).key ∧
      tabbedSource.locate 4 (4 : Nat) ≠ tabbedSource.locate 4 (5 : Nat) ∧
      (tabbedSource.position 4 (5 : Nat)).line < tabbedSource.lineCount := by
  obtain ⟨hmono, -, hlocate, hline⟩ :=
    Source.position_strictMonoOn (s := tabbedSource) rfl 4 (by decide)
  have hbefore : 4 ∈ Set.Iic tabbedSource.size := by decide
  have hend : 5 ∈ Set.Iic tabbedSource.size := by decide
  refine ⟨hmono hbefore hend (by decide), fun h => ?_, hline 5⟩
  exact absurd (hlocate hbefore hend h) (by decide)

end LocatedJson
