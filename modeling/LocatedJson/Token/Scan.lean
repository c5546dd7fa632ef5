import LocatedJson.Failure

/-! Scans: readings of one lexeme from the bytes ahead. A scan tells how many bytes it takes
and, when it fails, how far away the offending byte is and how far reading had gone; it knows
nothing of where in the document it began. -/
namespace LocatedJson

/-- A failed scan; both distances count from its first byte. -/
structure Fault where
  cause : Cause
  offset : Nat
  stop : Nat
  deriving DecidableEq, Repr

namespace Fault

def here (cause : Cause) (distance : Nat) : Fault := ⟨cause, distance, distance⟩

def shift (n : Nat) (f : Fault) : Fault := ⟨f.cause, n + f.offset, n + f.stop⟩

end Fault

abbrev Scanned (α : Type) := Except Fault (α × Nat)

def Scan (α : Type) := List Byte → Scanned α

namespace Scan

def pure {α : Type} (a : α) : Scan α := fun _ => .ok (a, 0)

/-- The second scan begins where the first one ended. -/
def bind {α β : Type} (first : Scan α) (next : α → Scan β) : Scan β := fun bytes =>
  match first bytes with
  | .error f => .error f
  | .ok (a, n) =>
    match next a (bytes.drop n) with
    | .error f => .error (f.shift n)
    | .ok (b, m) => .ok (b, n + m)

instance : Monad Scan where
  pure := Scan.pure
  bind := Scan.bind

def peek : Scan (Option Byte) := fun bytes => .ok (bytes.head?, 0)

def skip (n : Nat) : Scan Unit := fun _ => .ok ((), n)

def run (inClass : Byte → Bool) : Scan (List Byte) := fun bytes =>
  let taken := bytes.takeWhile inClass
  .ok (taken, taken.length)

def fail {α : Type} (cause : Cause) : Scan α := fun _ => .error (.here cause 0)

end Scan

end LocatedJson
