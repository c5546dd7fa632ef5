import LocatedJson.Proofs.Carets

/-! Where bytes are cut. A piece is told by its own bytes alone, so that a cut between two pieces
leaves the pieces before it as they were, and a cut within a piece leaves an ill-formed part of it.
An ASCII byte is a piece by itself, and a cut before it is between pieces. -/
namespace LocatedJson

namespace Text

theorem isLineEnd_eq_false_iff {ch : Char} : isLineEnd ch = false ↔ ch ≠ '\r' ∧ ch ≠ '\n' := by
  simp [isLineEnd]

def IsPlain (ch : Char) : Prop := ch ≠ '\t' ∧ isLineEnd ch = false

theorem isPlain_of_not_ascii {ch : Char} (h : 0x80 ≤ ch.toNat) : IsPlain ch := by
  have hne (c : Char) (hc : c.toNat < 0x80) : ch ≠ c := by
    rintro rfl
    exact absurd h (Nat.not_le.2 hc)
  exact ⟨hne _ (by decide), isLineEnd_eq_false_iff.2 ⟨hne _ (by decide), hne _ (by decide)⟩⟩

end Text

namespace Utf8

open String (utf8EncodeChar)

def spanned (ps : List Piece) : Nat := (ps.map Piece.width).sum

@[simp] theorem spanned_nil : spanned [] = 0 := rfl

@[simp] theorem decodeReplacing_nil : decodeReplacing [] = [] := by simp [decodeReplacing]

theorem decodeReplacing_cons (lead : Byte) (tail : List Byte) :
    decodeReplacing (lead :: tail) = (firstPiece lead tail).shown ::
      decodeReplacing ((lead :: tail).drop (firstPiece lead tail).width) := by
  rw [decodeReplacing, pieces_cons, List.map_cons, decodeReplacing]

@[elab_as_elim]
theorem piece_induction {motive : List Byte → Prop} (nil : motive [])
    (piece : ∀ lead tail, motive ((lead :: tail).drop (firstPiece lead tail).width) →
      motive (lead :: tail)) (bytes : List Byte) : motive bytes := by
  induction hn : bytes.length using Nat.strongRecOn generalizing bytes with
  | ind n ih =>
    match bytes with
    | [] => exact nil
    | lead :: tail =>
      have hpos := width_firstPiece_pos lead tail
      have hlength : ((lead :: tail).drop (firstPiece lead tail).width).length < n := by
        rw [List.length_drop, ← hn, List.length_cons]
        omega
      exact piece lead tail (ih _ hlength _ rfl)

/-! A cut between pieces or within one. -/

theorem fitting_take (ranges : List ByteRange) (bytes : List Byte) (n : Nat) :
    fitting ranges (bytes.take n) = min n (fitting ranges bytes) := by
  fun_induction fitting ranges bytes generalizing n with
  | case1 r ranges b bytes hb ih =>
    cases n with
    | zero => simp [fitting]
    | succ n => simp [fitting, hb, ih, Nat.add_min_add_right]
  | case2 r ranges b bytes hb =>
    cases n with
    | zero => simp [fitting]
    | succ n => simp [fitting, hb]
  | case3 ranges bytes hnot =>
    cases ranges with
    | nil => simp [fitting]
    | cons r ranges =>
      cases bytes with
      | nil => simp [fitting]
      | cons b bytes => exact absurd rfl (hnot r ranges b bytes rfl)

theorem firstPiece_take {lead : Byte} {tail : List Byte} {n : Nat}
    (h : (firstPiece lead tail).width ≤ n + 1) :
    firstPiece lead (tail.take n) = firstPiece lead tail := by
  unfold firstPiece at h ⊢
  cases hranges : followers lead with
  | none => rfl
  | some ranges =>
    have hle : fitting ranges tail ≤ n := by
      simp only [hranges] at h
      split at h <;> exact Nat.le_of_succ_le_succ h
    simp only [fitting_take, Nat.min_eq_right hle, List.take_take, Nat.min_eq_left hle]

/-- How a cut divides pieces, and which are left before it. -/
inductive Cut : List Piece → Nat → List Piece → Prop where
  | between (front back : List Piece) : Cut (front ++ back) (spanned front) front
  | within (front : List Piece) (p : Piece) (back : List Piece) (n : Nat) (hpos : 0 < n)
      (hn : n < p.width) : Cut (front ++ p :: back) (spanned front + n) (front ++ [.broken n])

theorem Cut.cons (p : Piece) {ps qs : List Piece} {n : Nat} (h : Cut ps n qs) :
    Cut (p :: ps) (p.width + n) (p :: qs) := by
  cases h with
  | between _ back => exact .between (p :: qs) back
  | within front q back n hpos hn =>
    rw [← Nat.add_assoc]
    exact .within (p :: front) q back n hpos hn

theorem decodeReplacing_cons_ascii {b : Byte} (hb : b < 0x80) (rest : List Byte) :
    decodeReplacing (b :: rest) = Char.ofNat b.toNat :: decodeReplacing rest := by
  rw [decodeReplacing_cons, firstPiece_ascii hb, codePoint_ascii]
  rfl

theorem not_ascii_of_mem_take_fitting {ranges : List ByteRange}
    (hranges : ∀ r ∈ ranges, 0x80 ≤ r.low) (bytes : List Byte) :
    ∀ b ∈ bytes.take (fitting ranges bytes), 0x80 ≤ b := by
  fun_induction fitting ranges bytes with
  | case1 r ranges b bytes hb ih =>
    rw [List.forall_mem_cons] at hranges
    rw [List.take_succ_cons, List.forall_mem_cons]
    simp only [ByteRange.contains, Bool.and_eq_true, decide_eq_true_eq] at hb
    exact ⟨UInt8.le_trans hranges.1 hb.1, ih hranges.2⟩
  | case2 => simp
  | case3 => simp

theorem not_ascii_of_mem_piece {lead : Byte} (hlead : 0x80 ≤ lead) (tail : List Byte) :
    ∀ b ∈ (lead :: tail).take (firstPiece lead tail).width, 0x80 ≤ b := by
  unfold firstPiece
  cases hranges : followers lead with
  | none => simpa [Piece.width] using hlead
  | some ranges =>
    have hfitting := not_ascii_of_mem_take_fitting (low_of_mem_followers hranges) tail
    dsimp only
    split <;> exact List.forall_mem_cons.2 ⟨hlead, hfitting⟩

theorem not_ascii_shown {lead : Byte} (hlead : 0x80 ≤ lead) (tail : List Byte) :
    0x80 ≤ (firstPiece lead tail).shown.toNat := by
  cases hpiece : firstPiece lead tail with
  | broken width => exact (by decide : 0x80 ≤ replacement.toNat)
  | char c width =>
    have hwidth : 0 < width := by simpa [hpiece, Piece.width] using width_firstPiece_pos lead tail
    have hmem : lead ∈ utf8EncodeChar c := by
      rw [(encodeChar_of_firstPiece hpiece).1]
      obtain ⟨width, rfl⟩ := Nat.exists_eq_succ_of_ne_zero hwidth.ne'
      simp
    have hchar := StringLiteral.mem_encodeChar hmem
    rw [UInt8.le_iff_toNat_le] at hlead
    simp only [UInt8.reduceToNat] at hlead
    show 0x80 ≤ c.toNat
    omega

theorem mem_of_mem_decodeReplacing {ch : Char} (hch : ch.toNat < 0x80) {bytes : List Byte}
    (h : ch ∈ decodeReplacing bytes) : UInt8.ofNat ch.toNat ∈ bytes := by
  induction bytes using piece_induction with
  | nil => simp at h
  | piece lead tail ih =>
    rw [decodeReplacing_cons, List.mem_cons] at h
    rcases h with rfl | h
    · have hlead : lead < 0x80 := by
        rw [← UInt8.not_le]
        intro hlead
        exact absurd (not_ascii_shown hlead tail) (Nat.not_le.2 hch)
      have hshown : (firstPiece lead tail).shown = Char.ofNat lead.toNat := by
        rw [firstPiece_ascii hlead, codePoint_ascii]
        rfl
      have hvalue : (Char.ofNat lead.toNat).toNat = lead.toNat :=
        toNat_val_ofNat (.inl (by have := lead.toNat_lt; omega))
      rw [hshown, hvalue, UInt8.ofNat_toNat]
      exact List.mem_cons_self
    · exact List.mem_of_mem_drop (ih h)

theorem firstPiece_before_ascii (lead : Byte) {b : Byte} (hb : b < 0x80) (front rest : List Byte) :
    firstPiece lead (front ++ b :: rest) = firstPiece lead front := by
  have hwidth : (firstPiece lead (front ++ b :: rest)).width ≤ front.length + 1 := by
    unfold firstPiece
    cases hranges : followers lead with
    | none => exact Nat.succ_le_succ (Nat.zero_le _)
    | some ranges =>
      obtain ⟨heq, hle⟩ := fitting_append_ascii (low_of_mem_followers hranges) hb front rest
      dsimp only
      split <;> exact Nat.succ_le_succ (heq ▸ hle)
  rw [← firstPiece_take hwidth, List.take_left]

theorem decodeReplacing_append_ascii {b : Byte} (hb : b < 0x80) (front rest : List Byte) :
    decodeReplacing (front ++ b :: rest) =
      decodeReplacing front ++ Char.ofNat b.toNat :: decodeReplacing rest := by
  induction front using piece_induction with
  | nil => rw [List.nil_append, decodeReplacing_cons_ascii hb, decodeReplacing_nil, List.nil_append]
  | piece lead tail ih =>
    have hdrop : (lead :: (tail ++ b :: rest)).drop (firstPiece lead tail).width =
        (lead :: tail).drop (firstPiece lead tail).width ++ b :: rest := by
      rw [← List.cons_append, List.drop_append_of_le_length (width_firstPiece_le lead tail)]
    rw [List.cons_append, decodeReplacing_cons, firstPiece_before_ascii lead hb, hdrop, ih,
      decodeReplacing_cons lead tail, List.cons_append]

end Utf8

end LocatedJson
