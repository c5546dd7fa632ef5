import LocatedJson.Proofs.Window

/-! The line index. It holds, in order, the offset behind each line feed that has text behind it,
and the search for the line of an offset counts the starts that do not lie behind the offset. One
byte further the line is the same, unless a line begins there. -/
namespace LocatedJson

theorem mem_lineStarts {buffer : List Byte} {size : Int} {start : Nat} :
    start ∈ lineStarts buffer size ↔
      ∃ i, buffer[i]? = some Byte.lineFeed ∧ start = i + 1 ∧ (start : Int) < size := by
  simp only [lineStarts, List.mem_filterMap, Prod.exists, List.mem_zipIdx_iff_getElem?,
    Bool.and_eq_true, decide_eq_true_eq, Option.ite_none_right_eq_some, Option.some.injEq]
  constructor
  · rintro ⟨b, i, hb, ⟨rfl, hi⟩, rfl⟩
    exact ⟨i, hb, rfl, by simpa using hi⟩
  · rintro ⟨i, hb, rfl, hi⟩
    exact ⟨_, i, hb, ⟨rfl, by simpa using hi⟩, rfl⟩

theorem pairwise_lineStarts (buffer : List Byte) (size : Int) :
    (lineStarts buffer size).Pairwise (· < ·) := by
  have hindex : buffer.zipIdx.Pairwise (fun p q => p.2 < q.2) := by
    rw [← List.pairwise_map (f := Prod.snd) (R := (· < ·)), List.zipIdx_map_snd]
    exact List.pairwise_lt_range'
  apply hindex.filterMap
  rintro ⟨b, i⟩ ⟨b', i'⟩ hlt start hstart start' hstart'
  simp only [Option.ite_none_right_eq_some, Option.some.injEq] at hstart hstart'
  omega

/-! The search. -/

/-- What the search knows: the entries before `low` do not exceed the key, those from `high` on
do. -/
structure Brackets (entries : Array Nat) (key : Int) (low high : Nat) : Prop where
  low_le : low ≤ high
  high_le : high ≤ entries.size
  before : ∀ i (h : i < entries.size), i < low → (entries[i] : Int) ≤ key
  behind : ∀ i (h : i < entries.size), high ≤ i → key < entries[i]

section Search

variable {entries : Array Nat} {key : Int}

theorem getElem_le_getElem (hsorted : entries.toList.Pairwise (· < ·)) {i j : Nat}
    (hj : j < entries.size) (hij : i ≤ j) : entries[i] ≤ entries[j] := by
  rcases Nat.lt_or_eq_of_le hij with hlt | rfl
  · have hlist := List.pairwise_iff_getElem.1 hsorted i j (by simp; omega) (by simpa) hlt
    simpa using hlist.le
  · rfl

theorem Brackets.upperBoundWithin (hsorted : entries.toList.Pairwise (· < ·)) {low high : Nat}
    (h : Brackets entries key low high) :
    Brackets entries key (upperBoundWithin entries key low high)
      (upperBoundWithin entries key low high) := by
  fun_induction LocatedJson.upperBoundWithin entries key low high with
  | case1 low high hlt middle hkey ih =>
    have hle := h.high_le
    have hmiddle : middle < entries.size := by omega
    have hexceeds : key < entries[middle] := by
      simpa [Array.getElem?_eq_getElem hmiddle] using hkey
    apply ih
    refine ⟨by omega, hmiddle.le, h.before, fun i hi hge => ?_⟩
    have hmono := getElem_le_getElem hsorted hi hge
    omega
  | case2 low high hlt middle hkey ih =>
    have hle := h.high_le
    have hmiddle : middle < entries.size := by omega
    have hwithin : (entries[middle] : Int) ≤ key := by
      simpa [Array.getElem?_eq_getElem hmiddle] using hkey
    apply ih
    refine ⟨by omega, hle, fun i hi hlow => ?_, h.behind⟩
    have hmono := getElem_le_getElem hsorted hmiddle (Nat.le_of_lt_succ hlow)
    omega
  | case3 low high hlt =>
    have heq : low = high := Nat.le_antisymm h.low_le (Nat.le_of_not_lt hlt)
    subst heq
    exact h

theorem brackets_upperBound (hsorted : entries.toList.Pairwise (· < ·)) (key : Int) :
    Brackets entries key (upperBound entries key) (upperBound entries key) := by
  apply Brackets.upperBoundWithin hsorted
  refine ⟨Nat.zero_le _, Nat.le_refl _, fun i _ hi => ?_, fun i hi hge => ?_⟩ <;> omega

theorem Brackets.eq_countP {n : Nat} (h : Brackets entries key n n) :
    n = entries.toList.countP (fun entry : Nat => (entry : Int) ≤ key) := by
  have htake : (entries.toList.take n).countP (fun entry : Nat => (entry : Int) ≤ key) = n := by
    rw [List.countP_eq_length.2, List.length_take, Array.length_toList,
      Nat.min_eq_left h.high_le]
    intro entry hentry
    obtain ⟨i, hi, rfl⟩ := List.mem_iff_getElem.1 hentry
    simp only [List.length_take, Array.length_toList] at hi
    simpa using h.before i (by omega) (by omega)
  have hdrop : (entries.toList.drop n).countP (fun entry : Nat => (entry : Int) ≤ key) = 0 := by
    rw [List.countP_eq_zero]
    intro entry hentry
    obtain ⟨i, hi, rfl⟩ := List.mem_iff_getElem.1 hentry
    simp only [List.length_drop, Array.length_toList] at hi
    simpa using h.behind (n + i) (by omega) (by omega)
  rw [← List.take_append_drop n entries.toList, List.countP_append, htake, hdrop, Nat.add_zero]

theorem countP_le_succ (entries : List Nat) (n : Nat) :
    entries.countP (fun entry : Nat => (entry : Int) ≤ (n + 1 : Nat)) =
      entries.countP (fun entry : Nat => (entry : Int) ≤ n) + entries.count (n + 1) := by
  induction entries with
  | nil => rfl
  | cons entry entries ih =>
    simp only [List.countP_cons, List.count_cons, ih, beq_iff_eq, decide_eq_true_eq]
    split_ifs <;> omega

end Search

namespace Contents

variable (c : Contents)

theorem mem_starts {start : Nat} :
    start ∈ c.starts.toList ↔
      ∃ i, c.text[i]? = some Byte.lineFeed ∧ start = i + 1 ∧ start < c.size := by
  rw [← c.starts_trimmed, starts_eq, size_trimmed, buffer_trimmed, List.toList_toArray,
    mem_lineStarts]
  simp

theorem pairwise_starts : c.starts.toList.Pairwise (· < ·) := by
  rw [starts_eq, List.toList_toArray]
  exact pairwise_lineStarts c.buffer c.size

theorem brackets_lineOf (index : Int) :
    Brackets c.starts index (c.lineOf index) (c.lineOf index) :=
  brackets_upperBound c.pairwise_starts index

theorem lineOf_eq_countP (index : Int) :
    c.lineOf index = c.starts.toList.countP (fun start : Nat => (start : Int) ≤ index) :=
  (c.brackets_lineOf index).eq_countP

theorem startOf_lineOf_mem {index : Int} (h : c.lineOf index ≠ 0) :
    c.startOf (c.lineOf index) ∈ c.starts.toList ∧ (c.startOf (c.lineOf index) : Int) ≤ index := by
  have hbrackets := c.brackets_lineOf index
  have hle := hbrackets.high_le
  have hlt : c.lineOf index - 1 < c.starts.size := by omega
  rw [startOf, if_neg h, Array.getElem?_eq_getElem hlt, Option.getD_some]
  exact ⟨Array.mem_toList_iff.2 (Array.getElem_mem hlt), hbrackets.before _ hlt (by omega)⟩

theorem startOf_lineOf_le (index : Int) (h : 0 ≤ index) :
    (c.startOf (c.lineOf index) : Int) ≤ index := by
  by_cases hline : c.lineOf index = 0
  · rwa [hline, startOf, if_pos rfl]
  · exact (c.startOf_lineOf_mem hline).2

theorem le_startOf_lineOf {start : Nat} (h : start ∈ c.starts.toList) (index : Int)
    (hle : (start : Int) ≤ index) : start ≤ c.startOf (c.lineOf index) := by
  have hbrackets := c.brackets_lineOf index
  have hsize := hbrackets.high_le
  obtain ⟨i, hi, rfl⟩ := List.mem_iff_getElem.1 h
  simp only [Array.length_toList, Array.getElem_toList] at hi hle ⊢
  have hbefore : i < c.lineOf index := by
    by_contra hnot
    have hbehind := hbrackets.behind i hi (by omega)
    omega
  have hlt : c.lineOf index - 1 < c.starts.size := by omega
  rw [startOf, if_neg (by omega), Array.getElem?_eq_getElem hlt, Option.getD_some]
  exact getElem_le_getElem c.pairwise_starts hlt (by omega)

theorem lineOf_succ (n : Nat) :
    c.lineOf (n + 1 : Nat) = c.lineOf n + if n + 1 ∈ c.starts.toList then 1 else 0 := by
  have hnodup : c.starts.toList.Nodup := c.pairwise_starts.imp Nat.ne_of_lt
  rw [lineOf_eq_countP, lineOf_eq_countP, countP_le_succ, hnodup.count]

theorem lineOf_zero : c.lineOf 0 = 0 := by
  rw [lineOf_eq_countP, List.countP_eq_zero]
  intro start hstart
  obtain ⟨i, -, rfl, -⟩ := c.mem_starts.1 hstart
  simp

theorem lineOf_min (index : Int) : c.lineOf (min index c.size) = c.lineOf index := by
  rw [lineOf_eq_countP, lineOf_eq_countP]
  apply List.countP_congr
  intro start hstart
  obtain ⟨-, -, -, hlt⟩ := c.mem_starts.1 hstart
  simp only [decide_eq_true_eq]
  omega

theorem startOf_lineOf_eq_max (index : Int) :
    c.startOf (c.lineOf index) =
      (c.starts.toList.filter fun start : Nat => (start : Int) ≤ index).max?.getD 0 := by
  by_cases hline : c.lineOf index = 0
  · have hnone : c.starts.toList.filter (fun start : Nat => (start : Int) ≤ index) = [] := by
      rw [← List.length_eq_zero_iff, ← List.countP_eq_length_filter, ← lineOf_eq_countP, hline]
    rw [hnone, hline]
    rfl
  · obtain ⟨hmem, hle⟩ := c.startOf_lineOf_mem hline
    have hmax : (c.starts.toList.filter fun start : Nat => (start : Int) ≤ index).max? =
        some (c.startOf (c.lineOf index)) := by
      rw [List.max?_eq_some_iff]
      refine ⟨List.mem_filter.2 ⟨hmem, by simpa using hle⟩, fun start hstart => ?_⟩
      obtain ⟨hstart, hbefore⟩ := List.mem_filter.1 hstart
      exact c.le_startOf_lineOf hstart index (by simpa using hbefore)
    rw [hmax, Option.getD_some]

theorem lineStart_eq_filter (index : Int) :
    let before := c.starts.toList.filter fun start : Nat => (start : Int) ≤ index
    c.lineStart index = ⟨before.length, before.max?.getD 0⟩ := by
  intro before
  rw [lineStart, startOf_lineOf_eq_max, lineOf_eq_countP, List.countP_eq_length_filter]

/-- A line feed before an offset of the text begins a line that does not lie behind the offset. -/
theorem lineFeed_notMem_slice {index : Int} (h : 0 ≤ index) (hlt : index < c.size) :
    Byte.lineFeed ∉ Bytes.slice c.buffer (c.lineStart index).start index := by
  rw [← c.slice_text (by omega) h hlt.le, Bytes.slice, Bytes.fromFront_of_nonneg _ (by omega),
    Bytes.fromFront_of_nonneg _ h]
  intro hmem
  obtain ⟨i, hi⟩ := List.mem_iff_getElem?.1 hmem
  rw [List.getElem?_drop, List.getElem?_take] at hi
  split at hi
  · have hstart := c.mem_starts.2 ⟨_, hi, rfl, by omega⟩
    have hle := c.le_startOf_lineOf hstart index (by omega)
    simp only [lineStart, Int.toNat_natCast] at hle
    omega
  · cases hi

end Contents

/-- For any buffer and size the index has, in order, the offset behind each line feed within both
that lies below the size. Of any source and offset, the search finds how many of the recorded starts
do not lie behind the offset, and the greatest of these, or offset zero if there is none. Between
that start and an offset of the text there is no line feed, and an offset behind the text has the
line of its end. -/
theorem Source.lineStart_eq_count :
    (∀ (buffer : List Byte) (size : Int),
      (LocatedJson.lineStarts buffer size).Pairwise (· < ·) ∧
      ∀ start : Nat, start ∈ LocatedJson.lineStarts buffer size ↔
        ∃ i : Nat, start = i + 1 ∧ (i : Int) < min size buffer.length ∧
          buffer[i]? = some Byte.lineFeed ∧ (i + 1 : Int) < size) ∧
    ∀ (s : Source) (index : Int),
      let before := s.lineStarts.filter fun start : Nat => (start : Int) ≤ index
      s.lineStart index = ⟨before.length, before.max?.getD 0⟩ ∧
      (∀ c, s.contents = some c →
        s.lineStarts = LocatedJson.lineStarts c.buffer c.size ∧
        (0 ≤ index → index < s.size →
          Byte.lineFeed ∉ Bytes.slice c.buffer (s.lineStart index).start index)) ∧
      (s.size < index → s.lineStart index = s.lineStart s.size) := by
  refine ⟨fun buffer size => ⟨pairwise_lineStarts buffer size, fun start => ?_⟩, ?_⟩
  · rw [mem_lineStarts]
    constructor
    · rintro ⟨i, hi, rfl, hlt⟩
      obtain ⟨hlength, -⟩ := List.getElem?_eq_some_iff.1 hi
      exact ⟨i, rfl, by omega, hi, by omega⟩
    · rintro ⟨i, rfl, -, hi, hlt⟩
      exact ⟨i, hi, rfl, by omega⟩
  · rintro ⟨name, none | c⟩ index before
    · exact ⟨rfl, nofun, fun _ => rfl⟩
    · refine ⟨c.lineStart_eq_filter index, ?_, fun hbehind => ?_⟩
      · rintro _ ⟨⟩
        refine ⟨?_, fun h hlt => c.lineFeed_notMem_slice h hlt⟩
        exact congrArg Array.toList c.starts_eq
      · have hmin : min index c.size = c.size := min_eq_right hbehind.le
        have hline := c.lineOf_min index
        rw [hmin] at hline
        show c.lineStart index = c.lineStart c.size
        rw [Contents.lineStart, Contents.lineStart, hline]

def spacedLines : List Byte := [0x61, 0x0a, 0x0a, 0x62, 0x0a, 0x0a]

def spacedSource : Source := ⟨"spaced.json", some (.window spacedLines 5 (by decide))⟩

/-- The last line feed of the buffer begins a line only for a size beyond the buffer. -/
theorem Source.lineStart_spacedSource :
    6 ∈ LocatedJson.lineStarts spacedLines 9 ∧ spacedSource.lineStarts = [2, 3] ∧
      spacedSource.lineStart 4 = ⟨2, 3⟩ ∧ Byte.lineFeed ∉ Bytes.slice spacedLines 3 4 ∧
      spacedSource.lineStart 9 = spacedSource.lineStart 5 := by
  have hlast := ((Source.lineStart_eq_count.1 spacedLines 9).2 6).2
    ⟨5, rfl, by decide, rfl, by decide⟩
  have hstarts : spacedSource.lineStarts = [2, 3] := by decide
  obtain ⟨hline, htext, -⟩ := Source.lineStart_eq_count.2 spacedSource 4
  obtain ⟨-, -, hbehind⟩ := Source.lineStart_eq_count.2 spacedSource 9
  rw [hstarts] at hline
  have hfour : spacedSource.lineStart 4 = ⟨2, 3⟩ := hline
  have hfeed := (htext _ rfl).2 (by decide) (by decide)
  rw [hfour] at hfeed
  exact ⟨hlast, hstarts, hfour, hfeed, hbehind (by decide)⟩

end LocatedJson
