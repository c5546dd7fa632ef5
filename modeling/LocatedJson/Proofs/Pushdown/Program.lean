import LocatedJson.Proofs.Parsing.Whole

/-! Tokens first, values later. A text is cut into all its tokens before anything is made of them,
and a pushdown machine then goes over the tokens one by one. It keeps the open structures on a
stack, where the parser keeps them in its own recursion, and has neither a bound on the items of a
structure nor one on its levels. -/
namespace LocatedJson

/-- A text cut into tokens, up to the end of input or up to a token that is refused. -/
inductive Lexed where
  | finish (offset : Nat)
  | refused (start : Nat) (failure : Failure)
  | token (t : Token) (rest : Lexed)

namespace Lexed

def start : Lexed → Nat
  | finish offset => offset
  | refused start _ => start
  | token t _ => t.offset

def found : Lexed → List Token
  | finish offset => [⟨.eof, offset⟩]
  | refused _ _ => []
  | token t rest => t :: rest.found

def failure : Lexed → Option Failure
  | finish _ => none
  | refused _ failure => some failure
  | token _ rest => rest.failure

/-- Cuts what is ahead of a cursor. Every token but the end of input takes a byte. -/
def cut (o : Options) (l : Limits) (c : Cursor) : Lexed :=
  match _h : Cursor.nextToken o l c with
  | .error failure _ => refused c.skipped.pos failure
  | .ok t c' => if _ht : t.kind = .eof then finish t.offset else token t (cut o l c')
termination_by c.rest.length
decreasing_by exact Cursor.length_rest_lt _h _ht

def ofText (o : Options) (l : Limits) (text : List Byte) : Lexed := cut o l (.start text)

end Lexed

namespace Pushdown

open Structure (Tag Entry)

structure Frame where
  kind : Structure
  entries : List kind.Entry
  tag : kind.Tag

/-- What is due next. The frames are the structures around it, the innermost first. -/
inductive State where
  | value (frames : List Frame)
  | first (s : Structure) (frames : List Frame)
  | item (s : Structure) (entries : List s.Entry) (frames : List Frame)
  | colon (members : List (Entry .object)) (key : String) (frames : List Frame)
  | separator (s : Structure) (entries : List s.Entry) (frames : List Frame)

namespace State

def depth : State → Nat
  | value frames => frames.length
  | first _ frames | item _ _ frames | colon _ _ frames | separator _ _ frames =>
    frames.length + 1

/-- What is wrong with a text that ends here. -/
def incomplete : State → Cause
  | value _ => .missingValue
  | first s _ | item s _ _ | separator s _ _ => .unterminated s
  | colon .. => .unterminated .object

end State

inductive Progress where
  | due (st : State)
  | done (v : Value)

/-- Hands a value to the innermost structure. -/
def deliver (v : Value) : List Frame → Progress
  | [] => .done v
  | f :: frames => .due (.separator f.kind (f.entries ++ [f.kind.entry f.tag v]) frames)

variable (l : Limits)

def push (s : Structure) (frames : List Frame) (offset : Nat) : Except Failure Progress :=
  match l.violation? .nestingDepth (frames.length + 1) with
  | some cause => .error ⟨cause, offset⟩
  | none => .ok (.due (.first s frames))

def refuse (wanted : Wanted) (t : Token) : Except Failure Progress :=
  .error ⟨.unexpectedToken wanted t.kind, t.offset⟩

def stepValue (frames : List Frame) (t : Token) : Except Failure Progress :=
  match t.kind with
  | .string s => .ok (deliver (.string s) frames)
  | .number n => .ok (deliver (.number n) frames)
  | .bool b => .ok (deliver (.bool b) frames)
  | .null => .ok (deliver .null frames)
  | .mark .openBrace => push l .object frames t.offset
  | .mark .openBracket => push l .array frames t.offset
  | _ => refuse .value t

def stepItem : (s : Structure) → List s.Entry → List Frame → Token → Except Failure Progress
  | .array, elements, frames, t => stepValue l (⟨.array, elements, ()⟩ :: frames) t
  | .object, members, frames, t =>
    match t.kind with
    | .string key => .ok (.due (.colon members key frames))
    | _ => refuse .key t

/-- What a token does. The end of input is not among the tokens. -/
def step : State → Token → Except Failure Progress
  | .value frames, t => stepValue l frames t
  | .first s frames, t =>
    if t.kind = .mark s.closing then .ok (deliver (s.build []) frames)
    else stepItem l s [] frames t
  | .item s entries frames, t => stepItem l s entries frames t
  | .colon members key frames, t =>
    if t.kind = .mark .colon then .ok (.due (.value (⟨.object, members, key⟩ :: frames)))
    else refuse .colon t
  | .separator s entries frames, t =>
    if t.kind = .mark .comma then .ok (.due (.item s entries frames))
    else if t.kind = .mark s.closing then .ok (deliver (s.build entries) frames)
    else refuse (Parser.separatorOf s) t

end Pushdown

namespace Lexed

open Pushdown

/-- Behind the value of the document nothing may follow. What follows is not looked at: only where
it begins is told. -/
def close (v : Value) : Lexed → Except Failure Value
  | finish _ => .ok v
  | rest => .error ⟨.trailingData, rest.start⟩

variable (l : Limits)

/-- Goes over the tokens. The failure of a refused token is raised when the token is due. -/
def run : Lexed → State → Except Failure Value
  | finish offset, st => .error ⟨st.incomplete, offset⟩
  | refused _ failure, _ => .error failure
  | token t rest, st =>
    match step l st t with
    | .error failure => .error failure
    | .ok (.due st') => rest.run st'
    | .ok (.done v) => rest.close v

def parse (size : Nat) (tokens : Lexed) : Except Failure Value :=
  match l.violation? .inputSize size with
  | some cause => .error ⟨cause, 0⟩
  | none => tokens.run l (.value [])

end Lexed

end LocatedJson
