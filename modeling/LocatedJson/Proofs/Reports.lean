import LocatedJson.Document
import Mathlib

/-! Reports. A failure is shown with its place, and with an excerpt if one is asked for, unless its
line or column has too many digits or its line is to be expanded with a tab size beyond 32 bits. -/
namespace LocatedJson

theorem length_toDigits_le_iff (n : Nat) {k : Nat} (hk : 0 < k) :
    (Nat.toDigits 10 n).length ≤ k ↔ (Nat.digits 10 n).length ≤ k := by
  rw [Nat.length_toDigits_le_iff (by decide) hk, Nat.digits_length_le_iff (by decide)]

theorem isShown_iff (n : Int) : isShown n = true ↔ (Nat.digits 10 n.natAbs).length ≤ 4300 := by
  rw [isShown, decide_eq_true_iff, length_toDigits_le_iff _ (by decide), maxShownDigits]

theorem lt_columnAfter {tabSize : Int} (h : 1 ≤ tabSize) (column : Int) (b : Byte) :
    column < columnAfter tabSize column b := by
  unfold columnAfter
  split_ifs
  · have hstop := Int.lt_mul_fdiv_self_add (x := column) (k := tabSize) (by omega)
    linarith
  · exact Int.lt_succ column

theorem le_foldl_columnAfter {tabSize : Int} (h : 1 ≤ tabSize) (bytes : List Byte)
    (column : Int) : column ≤ bytes.foldl (columnAfter tabSize) column := by
  induction bytes generalizing column with
  | nil => exact Int.le_refl column
  | cons b bytes ih => exact (lt_columnAfter h column b).le.trans (ih _)

theorem Source.zero_le_column (s : Source) {tabSize : Int} (h : 1 ≤ tabSize) (index : Int) :
    0 ≤ (s.position tabSize index).column := by
  unfold position
  cases s.contents with
  | none => exact Int.le_refl 0
  | some c => exact le_foldl_columnAfter h _ 0

def Position.Writable (p : Position) : Prop :=
  (Nat.digits 10 (p.line + 1)).length ≤ 4300 ∧
    (Nat.digits 10 (p.column + 1).toNat).length ≤ 4300

instance (p : Position) : Decidable p.Writable := inferInstanceAs (Decidable (_ ∧ _))

theorem Position.writable_of_lt {p : Position} (hline : p.line < 10 ^ 9)
    (hcolumn : p.column < 10 ^ 9) : p.Writable := by
  have hdigits {n : Nat} (h : n ≤ 10 ^ 9) : (Nat.digits 10 n).length ≤ 4300 :=
    ((Nat.digits_length_le_iff (by decide) n).2 (by omega : n < 10 ^ 10)).trans (by decide)
  exact ⟨hdigits (by omega), hdigits (by omega)⟩

theorem Position.renderLineColumn_eq {p : Position} (h : 0 ≤ p.column) :
    renderLineColumn p.line p.column =
      if p.Writable then .ok p.render else .error .overlongNumber := by
  have hcolumn : (p.column + 1).natAbs = (p.column + 1).toNat := by omega
  have hshown : (isShown (p.line + 1) && isShown (p.column + 1)) = true ↔ p.Writable := by
    rw [Bool.and_eq_true, isShown_iff, isShown_iff, hcolumn]
    rfl
  unfold renderLineColumn
  rw [if_congr hshown rfl rfl]
  rfl

/-- Whether a failure at an offset of a source can be shown: its place can be written, and where its
line is to be shown, there is none or the tab size has 32 bits. -/
structure Reporting.Shows (r : Reporting) (s : Source) (offset : Int) : Prop where
  writable : (s.position r.tabSize.val offset).Writable
  tabSize_lt : r.withExcerpt = true → s.contents.isSome = true → r.tabSize.val < 2 ^ 31

theorem Reporting.shows_of_lt {r : Reporting} {s : Source} {offset : Int} {p : Position}
    (hp : s.position r.tabSize.val offset = p) (htab : r.tabSize.val < 2 ^ 31)
    (hline : p.line < 10 ^ 9) (hcolumn : p.column < 10 ^ 9) : r.Shows s offset :=
  ⟨hp ▸ Position.writable_of_lt hline hcolumn, fun _ _ => htab⟩

/-- What is shown of a failure that can be shown. -/
def Report.complete (s : Source) (r : Reporting) (failure : Failure) : Report where
  kind := failure.cause.kind
  text := failure.cause.message
  offset := failure.offset
  message := s.locate r.tabSize.val failure.offset ++ ": " ++ failure.cause.message
  excerpt := if r.withExcerpt then some (s.excerpt r.tabSize.val failure.offset) else none

section Showing

variable (s : Source) (r : Reporting)

theorem Reporting.one_le_tabSize : (1 : Int) ≤ r.tabSize.val := Int.natCast_pos.2 r.tabSize.property

theorem Source.locate?_eq (offset : Int) :
    s.locate? r.tabSize.val offset =
      if (s.position r.tabSize.val offset).Writable then .ok (s.locate r.tabSize.val offset)
      else .error .overlongNumber := by
  have hdefined : s.hasUndefinedStop r.tabSize.val offset = false := by
    simp [hasUndefinedStop, r.tabSize.property.ne']
  rw [locate?, hdefined, if_neg Bool.false_ne_true]
  dsimp only
  rw [Position.renderLineColumn_eq (s.zero_le_column r.one_le_tabSize offset)]
  split_ifs <;> rfl

theorem Source.excerpt?_eq (offset : Int) :
    s.excerpt? r.tabSize.val offset =
      if s.contents.isSome = true → r.tabSize.val < 2 ^ 31 then
        .ok (s.excerpt r.tabSize.val offset)
      else .error .tabSizeRange := by
  have hpos := r.tabSize.property
  have hrange : (s.contents.isSome && !Text.isTabSize r.tabSize.val) = true ↔
      ¬ (s.contents.isSome = true → r.tabSize.val < 2 ^ 31) := by
    simp only [Bool.and_eq_true, Text.isTabSize, Bool.not_eq_true', Bool.and_eq_false_iff,
      decide_eq_false_iff_not, Classical.not_imp]
    refine and_congr_right fun _ => ?_
    omega
  rw [excerpt?, if_congr hrange rfl rfl, ite_not]

variable {s r} {failure : Failure}

theorem Report.ofFailure_ok (h : r.Shows s failure.offset) :
    ofFailure s r failure = .ok (complete s r failure) := by
  have hplace := s.locate?_eq r failure.offset
  rw [if_pos h.writable] at hplace
  rw [ofFailure, ofCause, build, hplace]
  cases hexcerpt : r.withExcerpt with
  | false =>
    rw [complete, hexcerpt]
    rfl
  | true =>
    have hshown := s.excerpt?_eq r failure.offset
    rw [if_pos (h.tabSize_lt hexcerpt)] at hshown
    rw [complete, hexcerpt, if_pos rfl, hshown]
    rfl

theorem Report.ofFailure_overlong
    (h : ¬ (s.position r.tabSize.val failure.offset).Writable) :
    ofFailure s r failure = .error .overlongNumber := by
  have hplace := s.locate?_eq r failure.offset
  rw [if_neg h] at hplace
  rw [ofFailure, ofCause, build, hplace]
  rfl

theorem Report.ofFailure_tooWide
    (hwritable : (s.position r.tabSize.val failure.offset).Writable)
    (h : ¬ (r.withExcerpt = true → s.contents.isSome = true → r.tabSize.val < 2 ^ 31)) :
    ofFailure s r failure = .error .tabSizeRange := by
  obtain ⟨hexcerpt, htab⟩ := Classical.not_imp.1 h
  have hplace := s.locate?_eq r failure.offset
  have hshown := s.excerpt?_eq r failure.offset
  rw [if_pos hwritable] at hplace
  rw [if_neg htab] at hshown
  rw [ofFailure, ofCause, build, hplace, hexcerpt, if_pos rfl, hshown]
  rfl

/-- Excerpts with tab stops too far apart for any line to be expanded. -/
def Reporting.tooWide : Reporting := ⟨⟨2 ^ 31, by decide⟩, true⟩

theorem Report.ofFailure_of_tooWide {p : Position} (hc : s.contents.isSome = true)
    (hp : s.position (2 ^ 31 : Nat) failure.offset = p) (hline : p.line < 10 ^ 9)
    (hcolumn : p.column < 10 ^ 9) : ofFailure s .tooWide failure = .error .tabSizeRange :=
  ofFailure_tooWide (hp ▸ Position.writable_of_lt hline hcolumn) fun h =>
    absurd (h rfl hc) (Nat.lt_irrefl _)

theorem Report.ofFailure_fault (h : ¬ r.Shows s failure.offset) :
    ofFailure s r failure = .error .overlongNumber ∨
      ofFailure s r failure = .error .tabSizeRange := by
  by_cases hwritable : (s.position r.tabSize.val failure.offset).Writable
  · exact .inr (ofFailure_tooWide hwritable fun htab => h ⟨hwritable, htab⟩)
  · exact .inl (ofFailure_overlong hwritable)

theorem Report.ofFailure_eq_ok_iff {report : Report} :
    ofFailure s r failure = .ok report ↔
      r.Shows s failure.offset ∧ report = complete s r failure := by
  constructor
  · intro hreport
    by_cases h : r.Shows s failure.offset
    · rw [ofFailure_ok h] at hreport
      exact ⟨h, (Except.ok.inj hreport).symm⟩
    · rcases ofFailure_fault h with hfault | hfault
      · cases hfault.symm.trans hreport
      · cases hfault.symm.trans hreport
  · rintro ⟨h, rfl⟩
    exact ofFailure_ok h

end Showing

end LocatedJson
