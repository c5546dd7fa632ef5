import LocatedJson.Reader.Backward

/-! The steps a reader takes: blanks, single tokens, and lexemes read at any byte. -/
namespace LocatedJson.Reader

def follow {α : Type} (work : CursorM α) (c : Cursor) : ReaderM α := fun r =>
  match work c with
  | .ok a c' => .ok a (r.seek c'.pos)
  | .error failure c' => .error (.rejected failure.cause failure.offset) (r.seek c'.pos)

def skipBlanks : ReaderM Unit := fun r => follow Cursor.skipBlanks ⟨r.origin, r.ahead⟩ r

def next : ReaderM Token := fun r =>
  follow (Cursor.nextToken r.options r.limits) ⟨r.origin, r.ahead⟩ r

/-- Reads a number; a position behind the text is kept as it is. -/
def readNumber : ReaderM Number := fun r =>
  if r.pos < 0 then readNumberBackward r
  else follow (Cursor.read (Number.scan r.options r.limits)) ⟨r.pos.toNat, r.ahead⟩ r

def readWord : ReaderM Token.Kind := fun r =>
  match Token.Kind.scanWord r.ahead with
  | .ok (kind, n) => .ok kind (r.seek (r.origin + n))
  | .error fault => .error (.rejected fault.cause r.pos) r

/-- The failure of a string's body, whose first byte the reader stands at, and where reading
stopped. Distances count from the front of the buffer, except in an ill-formed first run, before
which the reader's own position still stands. -/
def bodyFailure (r : Reader) (fault : Fault) : Error × Reader :=
  let base : Int := if fault.cause = .invalidUtf8 && fault.stop = 0 then r.pos else r.origin
  (.rejected fault.cause (base + fault.offset), r.seek (base + fault.stop))

/-- Reads a string whose quote is the byte at the position, also where that byte is no longer
text. There is none outside the buffer. -/
def readString : ReaderM String := fun r =>
  match Bytes.at? r.contents.buffer r.pos with
  | none => .error .outside r
  | some quote =>
    if !StringLiteral.admits r.options quote then
      .error (.rejected (.notEnabled .singleQuotes) r.pos) r
    else
      let body := r.seek (r.pos + 1)
      match StringLiteral.scanBody quote body.ahead with
      | .error fault =>
        let (failure, stopped) := body.bodyFailure fault
        .error failure stopped
      | .ok (text, n) =>
        let behind := r.seek (body.origin + n)
        match r.limits.violation? .stringLength text.length with
        | some cause => .error (.rejected cause r.pos) behind
        | none => .ok (String.ofList text) behind

end LocatedJson.Reader
