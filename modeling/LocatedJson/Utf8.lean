import LocatedJson.Byte

/-! UTF-8. Bytes are cut into pieces, each a well-formed character or a maximal ill-formed
part; strict decoding refuses at the first ill-formed piece and replacing decoding writes
U+FFFD for every one. -/
namespace LocatedJson.Utf8

structure ByteRange where
  low : Byte
  high : Byte

def ByteRange.contains (r : ByteRange) (b : Byte) : Bool := r.low ≤ b && b ≤ r.high

def continuation : ByteRange := ⟨0x80, 0xbf⟩

/-- The ranges of the bytes that follow a lead byte, or none for a byte that begins no
character. The second byte's range keeps out overlong forms, surrogates and values above
U+10FFFF. -/
def followers (lead : Byte) : Option (List ByteRange) :=
  if lead < 0x80 then some []
  else if lead < 0xc2 then none
  else if lead < 0xe0 then some [continuation]
  else if lead = 0xe0 then some [⟨0xa0, 0xbf⟩, continuation]
  else if lead = 0xed then some [⟨0x80, 0x9f⟩, continuation]
  else if lead < 0xf0 then some [continuation, continuation]
  else if lead = 0xf0 then some [⟨0x90, 0xbf⟩, continuation, continuation]
  else if lead < 0xf4 then some [continuation, continuation, continuation]
  else if lead = 0xf4 then some [⟨0x80, 0x8f⟩, continuation, continuation]
  else none

def fitting : List ByteRange → List Byte → Nat
  | r :: ranges, b :: bytes => if r.contains b then fitting ranges bytes + 1 else 0
  | _, _ => 0

/-- The bits a lead byte contributes when `n` bytes follow it. -/
def leadBits (lead : Byte) (n : Nat) : Nat :=
  if n = 0 then lead.toNat else lead.toNat % Nat.pow 2 (6 - n)

def codePoint (lead : Byte) (tail : List Byte) : Nat :=
  tail.foldl (fun n b => n * 64 + b.toNat % 64) (leadBits lead tail.length)

inductive Piece where
  | char (c : Char) (width : Nat)
  | broken (width : Nat)
  deriving DecidableEq, Repr

def Piece.width : Piece → Nat
  | .char _ n => n
  | .broken n => n

def firstPiece (lead : Byte) (tail : List Byte) : Piece :=
  match followers lead with
  | none => .broken 1
  | some ranges =>
    let n := fitting ranges tail
    if n = ranges.length then .char (Char.ofNat (codePoint lead (tail.take n))) (n + 1)
    else .broken (n + 1)

theorem width_firstPiece_pos (lead : Byte) (tail : List Byte) :
    0 < (firstPiece lead tail).width := by
  unfold firstPiece
  cases followers lead with
  | none => exact Nat.one_pos
  | some ranges =>
    dsimp only
    split <;> exact Nat.succ_pos _

theorem fitting_le (ranges : List ByteRange) (bytes : List Byte) :
    fitting ranges bytes ≤ bytes.length := by
  fun_induction fitting ranges bytes with
  | case1 r ranges b bytes _ ih => simpa using ih
  | case2 => exact Nat.zero_le _
  | case3 => exact Nat.zero_le _

theorem width_firstPiece_le (lead : Byte) (tail : List Byte) :
    (firstPiece lead tail).width ≤ (lead :: tail).length := by
  unfold firstPiece
  cases followers lead with
  | none => exact Nat.succ_le_succ (Nat.zero_le _)
  | some ranges =>
    dsimp only
    split <;> exact Nat.succ_le_succ (fitting_le ranges tail)

def pieces : List Byte → List Piece
  | [] => []
  | lead :: tail =>
    let piece := firstPiece lead tail
    piece :: pieces (tail.drop (piece.width - 1))
termination_by bytes => bytes.length
decreasing_by simp only [List.length_drop, List.length_cons]; omega

@[simp] theorem pieces_nil : pieces [] = [] := by simp [pieces]

theorem pieces_cons (lead : Byte) (tail : List Byte) :
    pieces (lead :: tail) = firstPiece lead tail ::
      pieces ((lead :: tail).drop (firstPiece lead tail).width) := by
  rw [pieces]
  obtain ⟨n, hn⟩ := Nat.exists_eq_succ_of_ne_zero
    (Nat.pos_iff_ne_zero.1 (width_firstPiece_pos lead tail))
  simp [hn]

def charactersFrom (offset : Nat) : List Piece → Except Nat (List Char)
  | [] => .ok []
  | .char c width :: rest => (charactersFrom (offset + width) rest).map (c :: ·)
  | .broken _ :: _ => .error offset

def decode (bytes : List Byte) : Except Nat (List Char) := charactersFrom 0 (pieces bytes)

def replacement : Char := Char.ofNat 0xfffd

def Piece.shown : Piece → Char
  | .char c _ => c
  | .broken _ => replacement

def decodeReplacing (bytes : List Byte) : List Char := (pieces bytes).map Piece.shown

def encode (text : List Char) : List Byte := text.flatMap String.utf8EncodeChar

end LocatedJson.Utf8
