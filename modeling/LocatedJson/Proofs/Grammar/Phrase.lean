import LocatedJson.Proofs.Grammar.Literal

/-! The grammar of values. A phrase is a derivation: a tree of literals, brackets and blanks with
the text it spells and the value that reading it gives. A document is a phrase between two gaps. -/
namespace LocatedJson

namespace Structure

def opening : Structure → Mark
  | .object => .openBrace
  | .array => .openBracket

def closing : Structure → Mark
  | .object => .closeBrace
  | .array => .closeBracket

def Tag : Structure → Type
  | .object => String
  | .array => Unit

def Entry : Structure → Type
  | .object => String × Value
  | .array => Value

def entry : (s : Structure) → Tag s → Value → Entry s
  | .object, key, value => (key, value)
  | .array, _, value => value

def build : (s : Structure) → List (Entry s) → Value
  | .object, members => .object (Value.collectMembers members)
  | .array, elements => .array elements

end Structure

namespace Grammar

open Structure (Tag Entry)

/-- The text of an item before its value: in an object, a key and a colon with gaps before
each. -/
inductive Lead : Structure → Type where
  | element : Lead .array
  | member (front : Gap) (key : Quoted) (back : Gap) : Lead .object

namespace Lead

variable {s : Structure}

def text : Lead s → List Byte
  | element => []
  | member front key back => front.bytes ++ (key.text ++ (back.bytes ++ [Mark.colon.byte]))

def tag : Lead s → Tag s
  | element => ()
  | member _ key _ => key.string

def scalars : Lead s → List Scalar
  | element => []
  | member _ key _ => [.string key]

end Lead

inductive Category where
  | value
  | items (s : Structure)

/-- What a phrase of a category means. -/
def Meaning : Category → Type
  | .value => Value
  | .items s => List (Entry s)

/-- Derivations. An item is a lead, a gap, a value and a gap; commas stand between items. -/
inductive Phrase : Category → Type where
  | scalar (x : Scalar) : Phrase .value
  | hollow (s : Structure) (gap : Gap) : Phrase .value
  | filled (s : Structure) (items : Phrase (.items s)) : Phrase .value
  | last {s : Structure} (lead : Lead s) (front : Gap) (p : Phrase .value) (back : Gap) :
      Phrase (.items s)
  | more {s : Structure} (lead : Lead s) (front : Gap) (p : Phrase .value) (back : Gap)
      (rest : Phrase (.items s)) : Phrase (.items s)

namespace Phrase

def text {c : Category} : Phrase c → List Byte
  | scalar x => x.text
  | hollow s gap => s.opening.byte :: (gap.bytes ++ [s.closing.byte])
  | filled s items => s.opening.byte :: (items.text ++ [s.closing.byte])
  | last lead front p back => lead.text ++ (front.bytes ++ (p.text ++ back.bytes))
  | more lead front p back rest =>
    lead.text ++ (front.bytes ++ (p.text ++ (back.bytes ++ (Mark.comma.byte :: rest.text))))

def meaning {c : Category} : Phrase c → Meaning c
  | scalar x => x.value
  | hollow s _ => s.build []
  | filled s items => s.build items.meaning
  | @last s lead _ p _ => [s.entry lead.tag p.meaning]
  | @more s lead _ p _ rest => s.entry lead.tag p.meaning :: rest.meaning

def value (p : Phrase .value) : Value := p.meaning

def nesting {c : Category} : Phrase c → Nat
  | scalar _ => 0
  | hollow _ _ => 1
  | filled _ items => items.nesting + 1
  | last _ _ p _ => p.nesting
  | more _ _ p _ rest => max p.nesting rest.nesting

def scalars {c : Category} : Phrase c → List Scalar
  | scalar x => [x]
  | hollow _ _ => []
  | filled _ items => items.scalars
  | last lead _ p _ => lead.scalars ++ p.scalars
  | more lead _ p _ rest => lead.scalars ++ (p.scalars ++ rest.scalars)

def Admitted {c : Category} (o : Options) (rule : Surrogates) (p : Phrase c) : Prop :=
  ∀ x ∈ p.scalars, x.Admitted o rule

def Within {c : Category} (l : Limits) (p : Phrase c) : Prop := ∀ x ∈ p.scalars, x.Within l

theorem Within.unlimited {c : Category} {l : Limits} {p : Phrase c} (h : p.Within l) :
    p.Within {} := fun x hx => (h x hx).unlimited

/-- Whether a value ends before these bytes. -/
def EndsBefore (rest : List Byte) : Phrase .value → Prop
  | scalar x => x.EndsBefore rest
  | _ => True

end Phrase

structure Document where
  front : Gap
  phrase : Phrase .value
  back : Gap

namespace Document

def text (d : Document) : List Byte := d.front.bytes ++ (d.phrase.text ++ d.back.bytes)

def Admitted (o : Options) (rule : Surrogates) (d : Document) : Prop := d.phrase.Admitted o rule

end Document

/-- The text is the front of a document. -/
def Opens (o : Options) (rule : Surrogates) (text : List Byte) : Prop :=
  ∃ d : Document, d.Admitted o rule ∧ text <+: d.text

end Grammar

end LocatedJson
