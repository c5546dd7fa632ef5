import LocatedJson.Token.Numeral
import LocatedJson.Token.StringLiteral
import Mathlib

/-! Literals of the grammar: blanks, strings, numbers and words, each as the parts it is written
with. A literal has a text and a meaning; which literals a document may use depends on the
options and, for one purpose, on whether surrogates have to be paired. -/
namespace LocatedJson.Grammar

def blanks : List Byte := [0x20, 0x09, 0x0d, 0x0a]

theorem mem_blanks_iff {b : Byte} : b ∈ blanks ↔ b.isBlank = true := by
  simp [blanks, Byte.isBlank, or_assoc]

structure Gap where
  bytes : List Byte
  mem_blanks : ∀ b ∈ bytes, b ∈ blanks

theorem Gap.blank (g : Gap) : ∀ b ∈ g.bytes, b.isBlank = true :=
  fun b hb => mem_blanks_iff.1 (g.mem_blanks b hb)

def Gap.none : Gap := ⟨[], by simp⟩

@[simp] theorem Gap.bytes_none : Gap.none.bytes = [] := rfl

/-- The rule that a surrogate written as `\u` escape needs its other half right behind it, or
its absence. -/
inductive Surrogates where
  | paired
  | free
  deriving DecidableEq

inductive Quote where
  | double
  | single
  deriving DecidableEq

def Quote.char : Quote → Char
  | double => '\x22'
  | single => '\x27'

def Quote.byte : Quote → Byte
  | double => Byte.quote
  | single => Byte.apostrophe

def Quote.Admitted (o : Options) : Quote → Prop
  | double => True
  | single => o.singleQuotes = true

inductive Letter where
  | quote
  | backslash
  | slash
  | backspace
  | formFeed
  | lineFeed
  | carriageReturn
  | tab
  | apostrophe
  deriving DecidableEq

namespace Letter

def byte : Letter → Byte
  | quote => 0x22
  | backslash => 0x5c
  | slash => 0x2f
  | backspace => 0x62
  | formFeed => 0x66
  | lineFeed => 0x6e
  | carriageReturn => 0x72
  | tab => 0x74
  | apostrophe => 0x27

def char : Letter → Char
  | quote => '\x22'
  | backslash => '\\'
  | slash => '/'
  | backspace => '\x08'
  | formFeed => '\x0c'
  | lineFeed => '\n'
  | carriageReturn => '\r'
  | tab => '\t'
  | apostrophe => '\x27'

end Letter

/-- The hexadecimal digits of either case, with what each counts. -/
def hexTable : List (Byte × Nat) :=
  (Byte.ascii "0123456789abcdef".toList).zip (List.range 16) ++
    (Byte.ascii "ABCDEF".toList).zip [10, 11, 12, 13, 14, 15]

theorem lookup_hexTable (b : Byte) : hexTable.lookup b = b.hexValue? := by
  have hall : ∀ n : Fin 256, hexTable.lookup (UInt8.ofNat n) = Byte.hexValue? (UInt8.ofNat n) := by
    decide +kernel
  simpa using hall ⟨b.toNat, b.toNat_lt⟩

theorem isHexDigit_iff {b : Byte} : b.isHexDigit = true ↔ (hexTable.lookup b).isSome = true := by
  rw [Byte.isHexDigit, lookup_hexTable]

structure HexDigits where
  bytes : List Byte
  length_eq : bytes.length = 4
  inTable : ∀ b ∈ bytes, (hexTable.lookup b).isSome = true

namespace HexDigits

theorem hex (d : HexDigits) : ∀ b ∈ d.bytes, b.isHexDigit = true :=
  fun b hb => isHexDigit_iff.2 (d.inTable b hb)

/-- The last digit counts ones, the one before it sixteens, and so on. -/
def value (d : HexDigits) : Nat :=
  Nat.ofDigits 16 (d.bytes.reverse.map fun b => (hexTable.lookup b).getD 0)

theorem hexadecimalValue_bytes (d : HexDigits) : Byte.hexadecimalValue d.bytes = d.value := by
  rw [Byte.hexadecimalValue, value, Nat.ofDigits_eq_foldr, List.foldr_map, List.foldr_reverse]
  congr 1
  funext n b
  simp [lookup_hexTable, Nat.add_comm]

def IsHigh (d : HexDigits) : Prop := 0xd800 ≤ d.value ∧ d.value ≤ 0xdbff

def IsLow (d : HexDigits) : Prop := 0xdc00 ≤ d.value ∧ d.value ≤ 0xdfff

def escape (d : HexDigits) : List Byte := Byte.backslash :: Byte.lowerU :: d.bytes

end HexDigits

/-- What a string is written with: one character, in one of its spellings. -/
inductive Spelling where
  | plain (c : Char)
  | letter (e : Letter)
  | code (d : HexDigits)
  | pair (high low : HexDigits)

namespace Spelling

def text : Spelling → List Byte
  | plain c => String.utf8EncodeChar c
  | letter e => [Byte.backslash, e.byte]
  | code d => d.escape
  | pair high low => high.escape ++ low.escape

def char : Spelling → Char
  | plain c => c
  | letter e => e.char
  | code d => Char.ofNat d.value
  | pair high low => Char.ofNat (0x10000 + (high.value - 0xd800) * 0x400 + (low.value - 0xdc00))

/-- The spellings that may stand between quotes of a kind. An escaped apostrophe belongs to single
quotes. -/
def Admitted (rule : Surrogates) (q : Quote) : Spelling → Prop
  | plain c => 0x20 ≤ c.toNat ∧ c ≠ '\\' ∧ c ≠ q.char
  | letter e => e = .apostrophe → q = .single
  | code d => rule = .paired → ¬ d.IsHigh ∧ ¬ d.IsLow
  | pair high low => high.IsHigh ∧ low.IsLow

theorem Admitted.free {q : Quote} {u : Spelling} (h : u.Admitted .paired q) :
    u.Admitted .free q := by
  cases u with
  | code d => nofun
  | plain c => exact h
  | letter e => exact h
  | pair high low => exact h

end Spelling

structure Quoted where
  quote : Quote
  units : List Spelling

namespace Quoted

def body (q : Quoted) : List Byte := q.units.flatMap Spelling.text ++ [q.quote.byte]

def text (q : Quoted) : List Byte := q.quote.byte :: q.body

def chars (q : Quoted) : List Char := q.units.map Spelling.char

def string (q : Quoted) : String := String.ofList q.chars

def Admitted (o : Options) (rule : Surrogates) (q : Quoted) : Prop :=
  q.quote.Admitted o ∧ ∀ u ∈ q.units, u.Admitted rule q.quote

end Quoted

inductive Sign where
  | absent
  | minus
  | plus
  deriving DecidableEq

namespace Sign

def text : Sign → List Byte
  | absent => []
  | minus => [Byte.minus]
  | plus => [Byte.plus]

def isNegative (s : Sign) : Bool := s == minus

end Sign

theorem isDigit_iff {b : Byte} : b.isDigit = true ↔ 0x30 ≤ b ∧ b ≤ 0x39 := by
  simp [Byte.isDigit]

structure Digits where
  bytes : List Byte
  ne_nil : bytes ≠ []
  range : ∀ b ∈ bytes, 0x30 ≤ b ∧ b ≤ 0x39

theorem Digits.digit (d : Digits) : ∀ b ∈ d.bytes, b.isDigit = true :=
  fun b hb => isDigit_iff.2 (d.range b hb)

theorem Digits.head?_append (d : Digits) (rest : List Byte) :
    (d.bytes ++ rest).head? = d.bytes.head? := by
  obtain ⟨b, tail, h⟩ := List.exists_cons_of_ne_nil d.ne_nil
  rw [h, List.cons_append, List.head?_cons, List.head?_cons]

inductive Whole where
  | absent
  | zero
  | positive (digits : Digits) (leading : digits.bytes.head? ≠ some Byte.zero)

def Whole.text : Whole → List Byte
  | absent => []
  | zero => [Byte.zero]
  | positive digits _ => digits.bytes

theorem isExponentMark_iff {b : Byte} : b.isExponentMark = true ↔ b = 0x65 ∨ b = 0x45 := by
  simp [Byte.isExponentMark]

structure Exponent where
  mark : Byte
  mark_eq : mark = 0x65 ∨ mark = 0x45
  sign : Sign
  digits : Digits

theorem Exponent.isMark (e : Exponent) : e.mark.isExponentMark = true :=
  isExponentMark_iff.2 e.mark_eq

def Exponent.text (e : Exponent) : List Byte := e.mark :: (e.sign.text ++ e.digits.bytes)

/-- A number written with digits. Digits before the point are absent only where a point
follows. -/
structure Decimal where
  sign : Sign
  whole : Whole
  fraction : Option Digits
  exponent : Option Exponent
  mantissa : whole = .absent → fraction ≠ none

namespace Decimal

def fractionText : Option Digits → List Byte
  | none => []
  | some digits => Byte.dot :: digits.bytes

def exponentText : Option Exponent → List Byte
  | none => []
  | some e => e.text

def text (n : Decimal) : List Byte :=
  n.sign.text ++ (n.whole.text ++ (fractionText n.fraction ++ exponentText n.exponent))

def numeral (n : Decimal) : Numeral where
  negative := n.sign.isNegative
  whole := n.whole.text
  fraction := n.fraction.map (·.bytes)
  exponent := n.exponent.map fun e => (e.sign.isNegative, e.digits.bytes)

theorem isInteger_numeral (n : Decimal) :
    n.numeral.isInteger = true ↔ n.fraction = none ∧ n.exponent = none := by
  simp [Numeral.isInteger, numeral]

def Admitted (o : Options) (n : Decimal) : Prop :=
  (n.sign = .plus → o.explicitPlus = true) ∧ (n.whole = .absent → o.leadingDot = true)

/-- Whether a byte right behind the number would go on with it. -/
def continuedBy (n : Decimal) (b : Byte) : Bool :=
  b.isDigit || (b == Byte.dot && n.fraction.isNone && n.exponent.isNone) ||
    (b.isExponentMark && n.exponent.isNone)

end Decimal

inductive Word where
  | bool (b : Bool)
  | null
  deriving DecidableEq

def Word.text : Word → List Byte
  | bool true => Byte.ascii ['t', 'r', 'u', 'e']
  | bool false => Byte.ascii ['f', 'a', 'l', 's', 'e']
  | null => Byte.ascii ['n', 'u', 'l', 'l']

def letters : SpecialNumber → List Byte
  | .infinity => Byte.ascii "Infinity".toList
  | .negativeInfinity => Byte.ascii "-Infinity".toList
  | .nan => Byte.ascii "NaN".toList

theorem letters_eq (s : SpecialNumber) : letters s = s.spelling := by
  cases s <;> rfl

inductive Scalar where
  | word (w : Word)
  | special (s : SpecialNumber)
  | decimal (n : Decimal)
  | string (q : Quoted)

namespace Scalar

def text : Scalar → List Byte
  | word w => w.text
  | special s => letters s
  | decimal n => n.text
  | string q => q.text

def kind : Scalar → Token.Kind
  | word (.bool b) => .bool b
  | word .null => .null
  | special s => .number s.toNumber
  | decimal n => .number n.numeral.toNumber
  | string q => .string q.string

def value : Scalar → Value
  | word (.bool b) => .bool b
  | word .null => .null
  | special s => .number s.toNumber
  | decimal n => .number n.numeral.toNumber
  | string q => .string q.string

def Admitted (o : Options) (rule : Surrogates) : Scalar → Prop
  | word _ => True
  | special _ => o.infinityAndNan = true
  | decimal n => n.Admitted o
  | string q => q.Admitted o rule

/-- The limits that concern one literal. Numbers written with letters have no length to bound. -/
def Within (l : Limits) : Scalar → Prop
  | word _ | special _ => True
  | decimal n =>
    (∀ bound ∈ l.numberLength, n.text.length ≤ bound.val) ∧
      (n.fraction = none → n.exponent = none → n.whole.text.length ≤ 4300)
  | string q => ∀ bound ∈ l.stringLength, q.chars.length ≤ bound.val

theorem within_decimal {l : Limits} {n : Decimal} :
    (decimal n).Within l ↔ (∀ bound ∈ l.bound .numberLength, n.text.length ≤ bound) ∧
      (n.numeral.isInteger = true → n.whole.text.length ≤ Numeral.maxIntegerDigits) := by
  rw [Limits.bound_numberLength, Option.forall_mem_map, n.isInteger_numeral, and_imp]
  rfl

theorem within_string {l : Limits} {q : Quoted} :
    (string q).Within l ↔ ∀ bound ∈ l.bound .stringLength, q.chars.length ≤ bound := by
  rw [Limits.bound_stringLength, Option.forall_mem_map]
  rfl

def measured : Scalar → Option (Measure × Nat)
  | word _ | special _ => none
  | decimal n => some (.numberLength, n.text.length)
  | string q => some (.stringLength, q.chars.length)

def Fits (l : Limits) (x : Scalar) : Prop :=
  ∀ m n, x.measured = some (m, n) → ∀ bound ∈ l.bound m, n ≤ bound

theorem Within.fits {l : Limits} {x : Scalar} (h : x.Within l) : x.Fits l := by
  intro m n hmeasured
  match x with
  | decimal _ =>
    cases hmeasured
    exact (within_decimal.1 h).1
  | string _ =>
    cases hmeasured
    exact within_string.1 h

theorem Within.unlimited {l : Limits} {x : Scalar} (h : x.Within l) : x.Within {} := by
  match x with
  | word _ => trivial
  | special _ => trivial
  | decimal _ => exact ⟨nofun, h.2⟩
  | string _ => exact nofun

/-- Whether the literal ends before these bytes: nothing goes on with a number. -/
def EndsBefore (rest : List Byte) : Scalar → Prop
  | decimal n => ∀ b ∈ rest.head?, n.continuedBy b = false
  | _ => True

theorem Admitted.free {o : Options} {x : Scalar} (h : x.Admitted o .paired) :
    x.Admitted o .free := by
  cases x with
  | string q => exact ⟨h.1, fun u hu => (h.2 u hu).free⟩
  | word w => exact h
  | special s => exact h
  | decimal n => exact h

end Scalar

/-- What the lexer cuts a document into. -/
inductive Lexeme where
  | mark (m : Mark)
  | scalar (x : Scalar)

namespace Lexeme

def text : Lexeme → List Byte
  | mark m => [m.byte]
  | scalar x => x.text

def kind : Lexeme → Token.Kind
  | mark m => .mark m
  | scalar x => x.kind

def Admitted (o : Options) (rule : Surrogates) : Lexeme → Prop
  | mark _ => True
  | scalar x => x.Admitted o rule

def Within (l : Limits) : Lexeme → Prop
  | mark _ => True
  | scalar x => x.Within l

def Fits (l : Limits) : Lexeme → Prop
  | mark _ => True
  | scalar x => x.Fits l

theorem Within.fits {l : Limits} {x : Lexeme} (h : x.Within l) : x.Fits l := by
  cases x with
  | mark m => trivial
  | scalar x => exact Scalar.Within.fits h

theorem Within.unlimited {l : Limits} {x : Lexeme} (h : x.Within l) : x.Within {} := by
  cases x with
  | mark m => trivial
  | scalar x => exact Scalar.Within.unlimited h

def EndsBefore (rest : List Byte) : Lexeme → Prop
  | mark _ => True
  | scalar x => x.EndsBefore rest

theorem endsBefore_nil (x : Lexeme) : x.EndsBefore [] := by
  match x with
  | mark _ => trivial
  | scalar (.word _) => trivial
  | scalar (.special _) => trivial
  | scalar (.decimal _) => exact nofun
  | scalar (.string _) => trivial

end Lexeme

end LocatedJson.Grammar
