import LocatedJson.Byte
import LocatedJson.Value

/-! Tokens: what the grammar of values is written over. -/
namespace LocatedJson

inductive Mark where
  | openBrace
  | closeBrace
  | openBracket
  | closeBracket
  | colon
  | comma
  deriving DecidableEq, Repr

namespace Mark

def char : Mark → Char
  | openBrace => '\x7b'
  | closeBrace => '\x7d'
  | openBracket => '['
  | closeBracket => ']'
  | colon => ':'
  | comma => ','

def byte (m : Mark) : Byte := m.char.toUInt8

def all : List Mark := [openBrace, closeBrace, openBracket, closeBracket, colon, comma]

def ofByte? (b : Byte) : Option Mark := all.find? fun m => m.byte == b

@[simp] theorem ofByte?_byte (m : Mark) : ofByte? m.byte = some m := by
  cases m <;> rfl

example : all.map byte = Byte.ascii "\x7b\x7d[]:,".toList := by decide

end Mark

inductive Token.Kind where
  | mark (m : Mark)
  | string (s : String)
  | number (n : Number)
  | bool (b : Bool)
  | null
  | eof
  deriving DecidableEq, Repr

structure Token where
  kind : Token.Kind
  offset : Nat
  deriving DecidableEq, Repr

def Token.Kind.describe : Token.Kind → String
  | .mark m => Text.quoted (String.singleton m.char)
  | .string _ => "string"
  | .number _ => "number"
  | .bool true => "'true'"
  | .bool false => "'false'"
  | .null => "'null'"
  | .eof => "end of input"

end LocatedJson
