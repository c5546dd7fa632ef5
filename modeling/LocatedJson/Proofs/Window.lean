import LocatedJson.Proofs.Totality

/-! Nothing behind the text of a source is looked at. Line index, position and excerpt are those of
the text alone, and the machine, which could read the whole buffer, ends as the parse of the text
does; so two buffers that begin alike are parsed and reported on alike. -/
namespace LocatedJson

theorem lineStarts_take (buffer : List Byte) (size : Nat) :
    lineStarts (buffer.take size) size = lineStarts buffer size := by
  unfold lineStarts
  conv_rhs => rw [← List.take_append_drop size buffer]
  rw [List.zipIdx_append, List.filterMap_append, List.self_eq_append_right,
    List.filterMap_eq_nil_iff]
  -- behind the window no line starts
  rintro ⟨b, i⟩ hmem
  have hle := List.le_snd_of_mem_zipIdx hmem
  have hlt := List.snd_lt_add_of_mem_zipIdx hmem
  simp only [List.length_take, List.length_drop] at hle hlt
  have hnot : ¬ (i + 1 : Int) < size := by omega
  simp [hnot]

theorem lt_of_mem_lineStarts {buffer : List Byte} {size start : Nat}
    (h : start ∈ lineStarts buffer size) : start < size := by
  obtain ⟨⟨b, i⟩, -, hstart⟩ := List.mem_filterMap.1 h
  dsimp only at hstart
  split at hstart
  · next hfeed =>
    cases hstart
    simp only [Bool.and_eq_true, decide_eq_true_eq] at hfeed
    omega
  · cases hstart

theorem Bytes.fromFront_of_nonneg (bytes : List Byte) {pos : Int} (h : 0 ≤ pos) :
    fromFront bytes pos = pos.toNat := by
  rw [fromFront, if_neg (by omega)]

namespace Contents

variable (c : Contents)

def trimmed : Contents := ofBytes c.text

@[simp] theorem buffer_trimmed : c.trimmed.buffer = c.text := rfl

@[simp] theorem size_trimmed : c.trimmed.size = c.size := c.length_text

@[simp] theorem starts_trimmed : c.trimmed.starts = c.starts := by
  rw [starts_eq, starts_eq, size_trimmed, buffer_trimmed, text, lineStarts_take]

@[simp] theorem lineOf_trimmed (index : Int) : c.trimmed.lineOf index = c.lineOf index := by
  simp [lineOf]

@[simp] theorem startOf_trimmed (line : Nat) : c.trimmed.startOf line = c.startOf line := by
  simp [startOf]

@[simp] theorem endOf_trimmed (line : Nat) : c.trimmed.endOf line = c.endOf line := by
  simp [endOf]

theorem slice_text {start stop : Int} (hstart : 0 ≤ start) (hstop : 0 ≤ stop)
    (h : stop ≤ c.size) : Bytes.slice c.text start stop = Bytes.slice c.buffer start stop := by
  have hle : stop.toNat ≤ c.size := by omega
  simp only [Bytes.slice, Bytes.fromFront_of_nonneg _ hstart, Bytes.fromFront_of_nonneg _ hstop,
    text, List.take_take, Nat.min_eq_left hle]

variable {c}

theorem lt_size_of_getElem? {i start : Nat} (h : c.starts[i]? = some start) : start < c.size := by
  have hmem := Array.mem_of_getElem? h
  rw [c.starts_eq, List.mem_toArray] at hmem
  exact lt_of_mem_lineStarts hmem

variable (c)

theorem startOf_le (line : Nat) : c.startOf line ≤ c.size := by
  unfold startOf
  split
  · exact Nat.zero_le _
  · cases h : c.starts[line - 1]? with
    | none => exact Nat.zero_le _
    | some start => exact (lt_size_of_getElem? h).le

theorem endOf_le (line : Nat) : c.endOf line ≤ c.size := by
  unfold endOf
  cases h : c.starts[line]? with
  | none => exact Nat.le_refl _
  | some start => exact (lt_size_of_getElem? h).le

@[simp] theorem lineText_trimmed (line : Int) : c.trimmed.lineText line = c.lineText line := by
  have hend := c.endOf_le line.toNat
  simp [lineText, slice_text, hend]

@[simp] theorem lineFront_trimmed (offset : Nat) :
    c.trimmed.lineFront offset = c.lineFront offset := by
  simp [lineFront, lineStart, slice_text]

@[simp] theorem position_trimmed (tabSize : Int) (offset : Nat) :
    c.trimmed.position tabSize offset = c.position tabSize offset := by
  simp [position, lineStart]

@[simp] theorem excerptFront_trimmed (offset : Nat) :
    c.trimmed.excerptFront offset = c.excerptFront offset := by
  have hstart := c.startOf_le (c.lineOf offset)
  simp [excerptFront, lineStart, slice_text, hstart]

@[simp] theorem excerpt_trimmed (tabSize : Int) (offset : Nat) :
    c.trimmed.excerpt tabSize offset = c.excerpt tabSize offset := by
  simp [excerpt]

end Contents

section Sources

variable {s : Source} {c : Contents}

/-- A failure is reported as it would be of the text alone. -/
theorem Report.ofFailure_trimmed (hc : s.contents = some c) (r : Reporting) (failure : Failure) :
    Report.ofFailure (.ofBytes s.name c.text) r failure = Report.ofFailure s r failure := by
  have htrimmed : (Source.ofBytes s.name c.text).contents = some c.trimmed := rfl
  have hname : (Source.ofBytes s.name c.text).displayName = s.displayName := rfl
  have hposition : (Source.ofBytes s.name c.text).position r.tabSize.val failure.offset =
      s.position r.tabSize.val failure.offset := by simp [Source.position, hc, htrimmed]
  have hplace := (Source.ofBytes s.name c.text).locate?_eq r failure.offset
  rw [hposition, Source.locate, hposition, hname, ← Source.locate, ← s.locate?_eq] at hplace
  have hshown : (Source.ofBytes s.name c.text).excerpt? r.tabSize.val failure.offset =
      s.excerpt? r.tabSize.val failure.offset := by
    simp [Source.excerpt?, Source.excerpt, hc, htrimmed]
  rw [ofFailure, ofFailure, ofCause, ofCause, build, build, hplace, hshown]

theorem Source.parse_ofBytes_text (hc : s.contents = some c) (levels : Nat) (config : Config) :
    (Source.ofBytes s.name c.text).parse levels config = s.parse levels config := by
  rw [Source.parse_eq_outcome (s := .ofBytes s.name c.text) rfl, Source.parse_eq_outcome hc,
    Contents.text_ofBytes]
  cases parseText config.options config.limits levels c.text with
  | ok v => rfl
  | error failure => simp only [Source.outcome, Report.ofFailure_trimmed hc]

end Sources

def Contents.window (buffer : List Byte) (n : Nat) (h : n ≤ buffer.length) : Contents where
  buffer := buffer
  size := n
  size_le := h

/-- Two windows of one size on buffers that begin alike are sources that are parsed alike, by the
parser and by the machine on the whole buffers: what comes out is what the common front alone
gives. -/
theorem Source.parse_window (name : String) (n : Nat) (buffer buffer' : List Byte)
    (h : n ≤ buffer.length) (h' : n ≤ buffer'.length) (hfront : buffer.take n = buffer'.take n)
    (levels : Nat) (config : Config) :
    let c := Contents.window buffer n h
    let c' := Contents.window buffer' n h'
    let s : Source := ⟨name, some c⟩
    let s' : Source := ⟨name, some c'⟩
    Source.ofWindow name buffer n = .ok s ∧ Source.ofWindow name buffer' n = .ok s' ∧
      s.parse levels config = s'.parse levels config ∧
      s.parse levels config = (Source.ofBytes name (buffer.take n)).parse levels config ∧
      Machine.parse c s.displayName levels config =
        Machine.parse c' s'.displayName levels config := by
  intro c c' s s'
  have hwindow {bytes : List Byte} (hn : n ≤ bytes.length) :
      Source.ofWindow name bytes n = .ok ⟨name, some (.window bytes n hn)⟩ := by
    simp [Source.ofWindow, hn, Contents.window]
  have htext : c.text = c'.text := hfront
  have hparse : s.parse levels config = s'.parse levels config := by
    rw [← Source.parse_ofBytes_text (s := s) rfl, ← Source.parse_ofBytes_text (s := s') rfl, htext]
  refine ⟨hwindow h, hwindow h', hparse,
    (Source.parse_ofBytes_text (s := s) rfl levels config).symm, ?_⟩
  rw [Machine.parse_eq (s := s) rfl, Machine.parse_eq (s := s') rfl, htext]
  cases parseText config.options config.limits levels c'.text with
  | ok v => rfl
  | error failure =>
    have hreport := Report.ofFailure_trimmed (s := s) rfl config.reporting failure
    have hreport' := Report.ofFailure_trimmed (s := s') rfl config.reporting failure
    dsimp only
    rw [← hreport, ← hreport', htext]

def wholeEscape : List Byte := [0x5b, 0x22, 0x5c, 0x75, 0x30, 0x30, 0x65, 0x39, 0x22, 0x5d]

def brokenEscape : List Byte := [0x5b, 0x22, 0x5c, 0x75, 0x30, 0x30, 0x0a]

/-- Cut behind the sixth byte, both are strings without an end, for parser and machine. -/
theorem Source.parse_window_escape :
    let whole := Contents.window wholeEscape 6 (by decide)
    let broken := Contents.window brokenEscape 6 (by decide)
    (∃ report, (⟨"cut.json", some whole⟩ : Source).parse 256 .strict =
        .error (.rejected ⟨.unterminatedString, 6⟩ report) ∧
      (⟨"cut.json", some broken⟩ : Source).parse 256 .strict =
        .error (.rejected ⟨.unterminatedString, 6⟩ report)) ∧
      Machine.parse whole "cut.json" 256 .strict = Machine.parse broken "cut.json" 256 .strict := by
  intro whole broken
  obtain ⟨-, -, hparse, -, hmachine⟩ := Source.parse_window "cut.json" 6 wholeEscape brokenEscape
    (by decide) (by decide) (by decide) 256 .strict
  have htext : parseText .strict {} 256 whole.text = .error ⟨.unterminatedString, 6⟩ := by cbv
  have hwhole : (⟨"cut.json", some whole⟩ : Source).parse 256 .strict =
      .error (.rejected ⟨.unterminatedString, 6⟩ (Report.ofFailure _ {} _)) :=
    (Source.parse_eq_error rfl).2 ⟨htext, rfl⟩
  exact ⟨⟨_, hwhole, hparse.symm.trans hwhole⟩, hmachine⟩

end LocatedJson
