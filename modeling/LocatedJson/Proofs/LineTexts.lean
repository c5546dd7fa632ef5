import LocatedJson.Proofs.Excerpts

/-! The lines of a text. A line feed is a character by itself whatever stands around it, so that the
lines, cut from the bytes and decoded one by one, are those of the decoded text. The line index is
followed line by line: behind the first line feed it is the index of the rest, moved on. -/
namespace LocatedJson

@[elab_as_elim]
theorem line_induction {motive : List Byte → Prop}
    (last : ∀ bytes, Byte.lineFeed ∉ bytes → motive bytes)
    (line : ∀ first rest, Byte.lineFeed ∉ first → motive rest →
      motive (first ++ Byte.lineFeed :: rest)) (bytes : List Byte) : motive bytes := by
  induction hn : bytes.length using Nat.strongRecOn generalizing bytes with
  | ind n ih =>
    by_cases hfeed : Byte.lineFeed ∈ bytes
    · obtain ⟨first, rest, rfl, hfirst⟩ := List.eq_append_cons_of_mem hfeed
      have hlength : rest.length < n := by
        rw [← hn, List.length_append, List.length_cons]
        omega
      exact line first rest hfirst (ih _ hlength rest rfl)
    · exact last bytes hfeed

namespace Utf8

theorem lineFeed_notMem_decodeReplacing {bytes : List Byte} (h : Byte.lineFeed ∉ bytes) :
    '\n' ∉ decodeReplacing bytes :=
  fun hmem => h (mem_of_mem_decodeReplacing (by decide) hmem)

theorem decodeReplacing_line (first rest : List Byte) :
    decodeReplacing (first ++ Byte.lineFeed :: rest) =
      decodeReplacing first ++ '\n' :: decodeReplacing rest :=
  decodeReplacing_append_ascii (by decide) first rest

theorem decodeReplacing_eq_nil_iff {bytes : List Byte} :
    decodeReplacing bytes = [] ↔ bytes = [] := by
  cases bytes with
  | nil => simp
  | cons lead tail => simp [decodeReplacing_cons]

theorem splitOn_decodeReplacing_line {first : List Byte} (h : Byte.lineFeed ∉ first)
    (rest : List Byte) :
    (decodeReplacing (first ++ Byte.lineFeed :: rest)).splitOn '\n' =
      decodeReplacing first :: (decodeReplacing rest).splitOn '\n' := by
  rw [decodeReplacing_line, List.splitOn_append_cons_self,
    List.splitOn_eq_singleton (lineFeed_notMem_decodeReplacing h), List.singleton_append]

end Utf8

namespace Text

theorem trimLineEnd_concat_feed (text : List Char) :
    trimLineEnd (text ++ ['\n']) = trimLineEnd text :=
  List.rdropWhile_concat_pos _ _ _ rfl

theorem one_lt_length_splitOn {text : List Char} (h : text ≠ [])
    (hlast : (text.splitOn '\n').getLast? = some []) : 1 < (text.splitOn '\n').length := by
  by_contra hle
  have hpos := List.length_pos_of_ne_nil (List.splitOn_ne_nil '\n' text)
  obtain ⟨part, hpart⟩ := List.length_eq_one_iff.1 (show (text.splitOn '\n').length = 1 by omega)
  rw [hpart] at hlast
  obtain rfl : part = [] := Option.some.inj hlast
  have hwhole : ['\n'].intercalate (text.splitOn '\n') = text := List.intercalate_splitOn '\n'
  rw [hpart] at hwhole
  exact h hwhole.symm

end Text

theorem lineStarts_eq_nil {bytes : List Byte} (h : Byte.lineFeed ∉ bytes) (size : Int) :
    lineStarts bytes size = [] := by
  rw [List.eq_nil_iff_forall_not_mem]
  intro start hstart
  obtain ⟨i, hi, -⟩ := mem_lineStarts.1 hstart
  exact h (List.mem_of_getElem? hi)

theorem lineStarts_line {first : List Byte} (h : Byte.lineFeed ∉ first) (rest : List Byte)
    (size : Nat) :
    lineStarts (first ++ Byte.lineFeed :: rest) (first.length + 1 + size : Nat) =
      (if 0 < size then [first.length + 1] else []) ++
        (lineStarts rest size).map (first.length + 1 + ·) := by
  have hfirst := lineStarts_eq_nil h (first.length + 1 + size : Nat)
  unfold lineStarts at hfirst ⊢
  rw [List.zipIdx_append, List.filterMap_append, hfirst, List.nil_append, List.zipIdx_cons,
    List.zipIdx_eq_map_add, ← List.singleton_append, List.filterMap_append, List.filterMap_map,
    List.map_filterMap]
  congr 1
  · by_cases hsize : 0 < size <;> simp [hsize]
  · apply List.filterMap_congr
    rintro ⟨b, i⟩ -
    have hbelow : (first.length + 1 + i + 1 : Int) < first.length + 1 + size ↔
        (i + 1 : Int) < size := by omega
    simp [hbelow, ← Nat.add_assoc]

namespace Contents

section FirstLine

variable {first : List Byte} (hfirst : Byte.lineFeed ∉ first) (rest : List Byte)

theorem size_line : (ofBytes (first ++ Byte.lineFeed :: rest)).size =
    first.length + 1 + (ofBytes rest).size := by
  simp only [ofBytes, List.length_append, List.length_cons]
  omega

include hfirst

theorem starts_line_nil : (ofBytes (first ++ [Byte.lineFeed])).starts = #[] := by
  have hsize : (ofBytes (first ++ [Byte.lineFeed])).size = first.length + 1 := size_line []
  rw [starts_eq, hsize]
  exact congrArg List.toArray (lineStarts_line hfirst [] 0)

variable {rest}

theorem starts_line (hrest : rest ≠ []) :
    (ofBytes (first ++ Byte.lineFeed :: rest)).starts =
      ((first.length + 1) :: (ofBytes rest).starts.toList.map (first.length + 1 + ·)).toArray := by
  have hpos : 0 < (ofBytes rest).size := List.length_pos_of_ne_nil hrest
  rw [starts_eq, size_line]
  exact congrArg List.toArray ((lineStarts_line hfirst rest _).trans (by rw [if_pos hpos]; rfl))

theorem lineCount_line (hrest : rest ≠ []) :
    (ofBytes (first ++ Byte.lineFeed :: rest)).lineCount = (ofBytes rest).lineCount + 1 := by
  simp [lineCount, starts_line hfirst hrest]

theorem endOf_line_zero (rest : List Byte) :
    (ofBytes (first ++ Byte.lineFeed :: rest)).endOf 0 = first.length + 1 := by
  by_cases hrest : rest = []
  · subst hrest
    rw [endOf, starts_line_nil hfirst, size_line]
    rfl
  · simp [endOf, starts_line hfirst hrest]

theorem endOf_line_succ (hrest : rest ≠ []) (i : Nat) :
    (ofBytes (first ++ Byte.lineFeed :: rest)).endOf (i + 1) =
      first.length + 1 + (ofBytes rest).endOf i := by
  simp [endOf, starts_line hfirst hrest, size_line]

theorem startOf_line_succ (hrest : rest ≠ []) {i : Nat} (hi : i < (ofBytes rest).lineCount) :
    (ofBytes (first ++ Byte.lineFeed :: rest)).startOf (i + 1) =
      first.length + 1 + (ofBytes rest).startOf i := by
  cases i with
  | zero => simp [startOf, starts_line hfirst hrest]
  | succ i =>
    have hlt : i < (ofBytes rest).starts.size := Nat.lt_of_succ_lt_succ hi
    simp [startOf, starts_line hfirst hrest, hlt]

theorem lineBytes_line_zero (rest : List Byte) :
    (ofBytes (first ++ Byte.lineFeed :: rest)).lineBytes 0 = first ++ [Byte.lineFeed] := by
  rw [lineBytes, Bytes.slice_natCast, endOf_line_zero hfirst]
  simp [ofBytes, startOf, List.take_append]

theorem lineBytes_line_succ (hrest : rest ≠ []) {i : Nat} (hi : i < (ofBytes rest).lineCount) :
    (ofBytes (first ++ Byte.lineFeed :: rest)).lineBytes (i + 1) = (ofBytes rest).lineBytes i := by
  have hlength : (first ++ [Byte.lineFeed]).length = first.length + 1 := by simp
  have hbuffer : (ofBytes (first ++ Byte.lineFeed :: rest)).buffer =
      first ++ [Byte.lineFeed] ++ rest := by simp [ofBytes]
  rw [lineBytes, lineBytes, Bytes.slice_natCast, Bytes.slice_natCast, hbuffer,
    endOf_line_succ hfirst hrest, startOf_line_succ hfirst hrest hi, ← hlength,
    List.take_length_add_append, List.drop_length_add_append]
  rfl

end FirstLine

theorem starts_of_no_feed {bytes : List Byte} (h : Byte.lineFeed ∉ bytes) :
    (ofBytes bytes).starts = #[] := by
  rw [starts_eq]
  exact congrArg List.toArray (lineStarts_eq_nil h _)

theorem lineBytes_of_no_feed {bytes : List Byte} (h : Byte.lineFeed ∉ bytes) :
    (ofBytes bytes).lineBytes 0 = bytes := by
  rw [lineBytes, Bytes.slice_natCast, endOf, starts_of_no_feed h]
  simp [ofBytes, startOf]

theorem lineText_ofBytes {bytes : List Byte} {i : Nat} (hi : i < (ofBytes bytes).lineCount) :
    ∃ part, ((Utf8.decodeReplacing bytes).splitOn '\n')[i]? = some part ∧
      (ofBytes bytes).lineText i = part.rdropWhile (· == '\r') := by
  rw [lineText_eq_lineBytes _ (Nat.le_of_lt_succ hi)]
  induction bytes using line_induction generalizing i with
  | last bytes hfeed =>
    have hdecoded := Utf8.lineFeed_notMem_decodeReplacing hfeed
    have hzero : i = 0 := by simpa [lineCount, starts_of_no_feed hfeed] using hi
    subst hzero
    rw [lineBytes_of_no_feed hfeed, List.splitOn_eq_singleton hdecoded]
    exact ⟨_, rfl, Text.trimLineEnd_of_no_feed hdecoded⟩
  | line first rest hfirst ih =>
    rw [Utf8.splitOn_decodeReplacing_line hfirst]
    cases i with
    | zero =>
      refine ⟨_, rfl, ?_⟩
      rw [lineBytes_line_zero hfirst, Utf8.decodeReplacing_line, Utf8.decodeReplacing_nil,
        Text.trimLineEnd_concat_feed,
        Text.trimLineEnd_of_no_feed (Utf8.lineFeed_notMem_decodeReplacing hfirst)]
    | succ i =>
      have hrest : rest ≠ [] := by
        rintro rfl
        simp [lineCount, starts_line_nil hfirst] at hi
      rw [lineCount_line hfirst hrest] at hi
      have hlt : i < (ofBytes rest).lineCount := Nat.lt_of_succ_lt_succ hi
      rw [lineBytes_line_succ hfirst hrest hlt, List.getElem?_cons_succ]
      exact ih hlt

theorem lineCount_ofBytes (bytes : List Byte) :
    let parts := (Utf8.decodeReplacing bytes).splitOn '\n'
    (ofBytes bytes).lineCount =
      parts.length - if 1 < parts.length ∧ parts.getLast? = some [] then 1 else 0 := by
  intro parts
  induction bytes using line_induction with
  | last bytes hfeed =>
    have hparts : parts = [Utf8.decodeReplacing bytes] :=
      List.splitOn_eq_singleton (Utf8.lineFeed_notMem_decodeReplacing hfeed)
    simp [hparts, lineCount, starts_of_no_feed hfeed]
  | line first rest hfirst ih =>
    have hparts : parts = Utf8.decodeReplacing first ::
        (Utf8.decodeReplacing rest).splitOn '\n' := Utf8.splitOn_decodeReplacing_line hfirst rest
    by_cases hrest : rest = []
    · subst hrest
      simp [hparts, lineCount, starts_line_nil hfirst]
    · have hne := List.splitOn_ne_nil '\n' (Utf8.decodeReplacing rest)
      have hsome := List.length_pos_of_ne_nil hne
      have hseveral := Text.one_lt_length_splitOn (mt Utf8.decodeReplacing_eq_nil_iff.1 hrest)
      rw [lineCount_line hfirst hrest, ih, hparts, List.length_cons,
        List.getLast?_cons_of_ne_nil hne]
      split_ifs <;> grind

end Contents

/-- The lines of a source are the parts of its decoded text between line feeds, without the carriage
returns at their ends. There are as many as there are parts, an empty one behind the last line feed
apart. -/
theorem Source.lineText_eq_part {s : Source} {c : Contents} (hc : s.contents = some c) :
    let parts := (Utf8.decodeReplacing (c.buffer.take c.size)).splitOn '\n'
    (∀ i : Nat, i < s.lineCount →
      ∃ part, parts[i]? = some part ∧ s.lineText i = part.rdropWhile (· == '\r')) ∧
      s.lineCount =
        parts.length - if 1 < parts.length ∧ parts.getLast? = some [] then 1 else 0 := by
  intro parts
  have hcount : s.lineCount = c.trimmed.lineCount := by
    simp [lineCount, hc, Contents.lineCount]
  have htext (i : Nat) : s.lineText i = c.trimmed.lineText i := by simp [lineText, hc]
  rw [hcount]
  refine ⟨fun i hi => ?_, Contents.lineCount_ofBytes c.text⟩
  rw [htext]
  exact Contents.lineText_ofBytes hi

def brokenLines : List Byte :=
  [0xe2, 0x82, 0x0a, 0x0a, 0x61, 0xff, 0x0d, 0x0d, 0x0a, 0x0d, 0x62, 0xf0, 0x9f, 0x98, 0x80]

/-- The window ends within the last character. -/
def brokenSource : Source := ⟨"broken.json", some (.window brokenLines 14 (by decide))⟩

theorem Source.lineText_brokenSource :
    (Utf8.decodeReplacing (brokenLines.take 14)).splitOn '\n' =
        [[Utf8.replacement], [], ['a', Utf8.replacement, '\r', '\r'],
          ['\r', 'b', Utf8.replacement]] ∧
      brokenSource.lineCount = 4 ∧ brokenSource.lineText (2 : Nat) = ['a', Utf8.replacement] := by
  have hparts : (Utf8.decodeReplacing (brokenLines.take 14)).splitOn '\n' =
      [[Utf8.replacement], [], ['a', Utf8.replacement, '\r', '\r'],
        ['\r', 'b', Utf8.replacement]] := by cbv
  obtain ⟨hlines, hcount⟩ := Source.lineText_eq_part (s := brokenSource) rfl
  have hfour : brokenSource.lineCount = 4 := by
    rw [hcount]
    exact congrArg (fun parts : List (List Char) =>
      parts.length - if 1 < parts.length ∧ parts.getLast? = some [] then 1 else 0) hparts
  obtain ⟨part, hpart, htext⟩ := hlines 2 (by rw [hfour]; decide)
  have hthird := hpart.symm.trans (congrArg (·[2]?) hparts)
  rw [Option.some.inj hthird] at htext
  exact ⟨hparts, hfour, htext⟩

end LocatedJson
