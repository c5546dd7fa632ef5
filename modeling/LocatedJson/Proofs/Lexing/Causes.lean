import LocatedJson.Proofs.Lexing.Numbers
import LocatedJson.Token.Lexer

/-! The causes that lexing has. It never complains of tokens or of nesting: that is for the parser
alone. -/
namespace LocatedJson

/-- The causes that tell of a token, or of the end, where another token is due. -/
def Cause.concernsTokens : Cause → Bool
  | .missingValue | .unterminated _ | .unexpectedToken .. | .trailingData => true
  | _ => false

/-- The causes that reading a lexeme can have. -/
def Cause.isLexical : Cause → Bool
  | .recursionExhausted _ => false
  | cause => !cause.concernsTokens

theorem Cause.concernsTokens_of_isLexical {cause : Cause} (h : cause.isLexical = true) :
    cause.concernsTokens = false := by
  unfold Cause.isLexical at h
  split at h
  · cases h
  · simpa using h

def Cause.isSpelling (cause : Cause) : Bool := cause.isLexical && cause.kind == .grammar

def Cause.isLegible : Cause → Bool
  | .invalidUtf8 => false
  | _ => true

def Cause.isNotation (cause : Cause) : Bool := cause.isSpelling && cause.isLegible

theorem Cause.isSpelling_of_isNotation {cause : Cause} (h : cause.isNotation = true) :
    cause.isSpelling = true := ((Bool.and_eq_true _ _).mp h).1

theorem Cause.isLegible_of_isNotation {cause : Cause} (h : cause.isNotation = true) :
    cause.isLegible = true := ((Bool.and_eq_true _ _).mp h).2

theorem Cause.isLexical_of_isSpelling {cause : Cause} (h : cause.isSpelling = true) :
    cause.isLexical = true := ((Bool.and_eq_true _ _).mp h).1

theorem Cause.kind_of_isSpelling {cause : Cause} (h : cause.isSpelling = true) :
    cause.kind = .grammar := eq_of_beq ((Bool.and_eq_true _ _).mp h).2

/-- A scan that complains only in certain ways. -/
def Scanned.Blames {α : Type} (p : Cause → Bool) (r : Scanned α) : Prop :=
  ∀ f, r = .error f → p f.cause = true

def Cause.isOrdinary (cause : Cause) : Bool := cause.isLexical && cause.isLegible

theorem Cause.isOrdinary_of_isNotation {cause : Cause} (h : cause.isNotation = true) :
    cause.isOrdinary = true := by
  rw [isOrdinary, isLexical_of_isSpelling (isSpelling_of_isNotation h),
    isLegible_of_isNotation h]
  rfl

theorem Limits.isOrdinary_violation {l : Limits} {m : Measure} {n : Nat} {cause : Cause}
    (h : l.violation? m n = some cause) : cause.isOrdinary = true := by
  obtain ⟨bound, -, rfl⟩ := Option.map_eq_some_iff.1 h
  rfl

namespace Scanned.Blames

variable {α β : Type} {p : Cause → Bool}

theorem ok (a : α × Nat) : Blames p (.ok a : Scanned α) := nofun

theorem error {f : Fault} (h : p f.cause = true) : Blames p (.error f : Scanned α) := by
  rintro _ ⟨⟩
  exact h

theorem bind {first : Scan α} {next : α → Scan β} (h : ∀ bytes, Blames p (first bytes))
    (hnext : ∀ a bytes, Blames p (next a bytes)) (bytes : List Byte) :
    Blames p ((first >>= next) bytes) := by
  show Blames p (Scan.bind first next bytes)
  unfold Scan.bind
  cases hfirst : first bytes with
  | error f => exact error (h bytes f hfirst)
  | ok r =>
    obtain ⟨a, n⟩ := r
    dsimp only
    cases hsecond : next a (bytes.drop n) with
    | error f => exact error (hnext a _ f hsecond)
    | ok r => exact ok _

theorem pure (a : α) (bytes : List Byte) : Blames p ((Pure.pure a : Scan α) bytes) := nofun

theorem fail {cause : Cause} (h : p cause = true) (bytes : List Byte) :
    Blames p ((Scan.fail cause : Scan α) bytes) :=
  error h

theorem peek (bytes : List Byte) : Blames p (Scan.peek bytes) := nofun

theorem skip (n : Nat) (bytes : List Byte) : Blames p (Scan.skip n bytes) := nofun

theorem run (inClass : Byte → Bool) (bytes : List Byte) :
    Blames p (Scan.run inClass bytes) := nofun

end Scanned.Blames

open Scanned (Blames)
open Cause (isLexical isSpelling isNotation isOrdinary isLexical_of_isSpelling
  isSpelling_of_isNotation isOrdinary_of_isNotation)

namespace StringLiteral

theorem blames_scanHexDigits (bytes : List Byte) : Blames isNotation (scanHexDigits bytes) := by
  unfold scanHexDigits
  dsimp only
  split
  · exact .ok _
  · split
    · exact .error rfl
    · exact .error rfl

theorem blames_scanLowSurrogate (high : Nat) (bytes : List Byte) :
    Blames isNotation (scanLowSurrogate high bytes) := by
  unfold scanLowSurrogate
  split
  · next rest =>
    split
    · next f hf => exact .error (blames_scanHexDigits rest f hf)
    · split
      · exact .ok _
      · exact .error rfl
  · exact .error rfl

theorem blames_scanEscape (quote : Byte) (bytes : List Byte) :
    Blames isNotation (scanEscape quote bytes) := by
  unfold scanEscape
  split
  · exact .error rfl
  · next rest =>
    split
    · next f hf => exact .error (blames_scanHexDigits rest f hf)
    · split
      · exact .error rfl
      · split
        · split
          · next f hf => exact .error (blames_scanLowSurrogate _ _ f hf)
          · exact .ok _
        · exact .ok _
  · split
    · exact .ok _
    · exact .error rfl

theorem blames_scanBody (quote : Byte) (bytes : List Byte) :
    Blames isSpelling (scanBody quote bytes) := by
  fun_induction scanBody quote bytes with
  | case1 bytes run offset hdecode => exact .error rfl
  | case2 bytes run text hdecode hbehind => exact .error rfl
  | case3 bytes run text hdecode rest hbehind => exact .ok _
  | case4 bytes run text hdecode rest f hf =>
    exact .error (isSpelling_of_isNotation (blames_scanEscape quote rest f hf))
  | case5 bytes run text hdecode rest c width hescape f hf _ _ ih =>
    exact .error (ih f hf)
  | case6 => exact .ok _
  | case7 => exact .error rfl

end StringLiteral

namespace Numeral

theorem blames_scanDigits (place : DigitPlace) (bytes : List Byte) :
    Blames isNotation (scanDigits place bytes) := by
  refine .bind (.run _) (fun digits bytes => ?_) bytes
  split
  · exact .bind .peek (fun found => .fail rfl) bytes
  · exact .pure _ bytes

theorem blames_scanSign (o : Options) (bytes : List Byte) :
    Blames isNotation (scanSign o bytes) := by
  refine .bind .peek (fun next bytes => ?_) bytes
  split
  · exact .bind (.skip 1) (fun _ => .pure _) bytes
  · split
    · exact .bind (.skip 1) (fun _ => .pure _) bytes
    · exact .fail rfl bytes
  · exact .pure _ bytes

theorem blames_scanWhole (o : Options) (bytes : List Byte) :
    Blames isNotation (scanWhole o bytes) := by
  refine .bind .peek (fun next bytes => ?_) bytes
  split
  · refine .bind (.skip 1) (fun _ => .bind .peek fun next bytes => ?_) bytes
    split
    · exact .fail rfl bytes
    · exact .pure _ bytes
  · split
    · exact .pure _ bytes
    · exact .fail rfl bytes
  · exact blames_scanDigits .integer bytes

theorem blames_scanFraction (bytes : List Byte) : Blames isNotation (scanFraction bytes) := by
  refine .bind .peek (fun next bytes => ?_) bytes
  split
  · exact .bind (.skip 1) (fun _ => .bind (blames_scanDigits _) fun _ => .pure _) bytes
  · exact .pure _ bytes

theorem blames_scanEitherSign (bytes : List Byte) : Blames isNotation (scanEitherSign bytes) := by
  refine .bind .peek (fun next bytes => ?_) bytes
  split
  · exact .bind (.skip 1) (fun _ => .pure _) bytes
  · exact .bind (.skip 1) (fun _ => .pure _) bytes
  · exact .pure _ bytes

theorem blames_scanExponent (bytes : List Byte) : Blames isNotation (scanExponent bytes) := by
  refine .bind .peek (fun next bytes => ?_) bytes
  split
  · exact .bind (.skip 1) (fun _ => .bind blames_scanEitherSign fun _ =>
      .bind (blames_scanDigits _) fun _ => .pure _) bytes
  · exact .pure _ bytes

theorem blames_scan (o : Options) (bytes : List Byte) : Blames isNotation (scan o bytes) :=
  .bind (blames_scanSign o) (fun _ => .bind (blames_scanWhole o) fun _ =>
    .bind blames_scanFraction fun _ => .bind blames_scanExponent fun _ => .pure _) bytes

end Numeral

/-! Whole lexemes. Only bodies of strings have causes that are not ordinary. -/

section Lexemes

variable {p : Cause → Bool} (hp : ∀ cause, cause.isOrdinary = true → p cause = true)

include hp

theorem StringLiteral.blames_scan (o : Options) (l : Limits) {quote : Byte} {bytes : List Byte}
    (hbody : Blames p (scanBody quote bytes)) : Blames p (scan o l quote bytes) := by
  unfold scan
  split
  · exact .error (hp _ rfl)
  · split
    · next f hf => exact .error (hbody f hf)
    · split
      · next cause hcause => exact .error (hp _ (Limits.isOrdinary_violation hcause))
      · exact .ok _

theorem Number.blames_scan (o : Options) (l : Limits) (bytes : List Byte) :
    Blames p (Number.scan o l bytes) := by
  unfold Number.scan
  split
  · split
    · exact .ok _
    · exact .error (hp _ rfl)
  · split
    · next f hf =>
      exact .error (hp _ (isOrdinary_of_isNotation (Numeral.blames_scan o bytes f hf)))
    · split
      · next cause hcause => exact .error (hp _ (Limits.isOrdinary_violation hcause))
      · split
        · exact .error (hp _ rfl)
        · exact .ok _

theorem Token.Kind.blames_scan (o : Options) (l : Limits) {bytes : List Byte}
    (hbody : ∀ b rest, bytes = b :: rest → (b = Byte.quote || b = Byte.apostrophe) = true →
      Blames p (StringLiteral.scanBody b rest)) : Blames p (Token.Kind.scan o l bytes) := by
  unfold Token.Kind.scan
  split
  · exact .ok _
  · next b rest =>
    split
    · exact .ok _
    · split
      · next hquote =>
        cases h : StringLiteral.scan o l b rest with
        | ok r => exact .ok _
        | error f =>
          exact .error (StringLiteral.blames_scan hp o l (hbody b rest rfl hquote) f h)
      · split
        · cases h : Number.scan o l (b :: rest) with
          | ok r => exact .ok _
          | error f => exact .error (Number.blames_scan hp o l (b :: rest) f h)
        · split
          · unfold Token.Kind.scanWord
            split
            · exact .ok _
            · exact .error (hp _ rfl)
          · exact .error (hp _ rfl)

end Lexemes

theorem Token.Kind.lexical_scan (o : Options) (l : Limits) (bytes : List Byte) :
    Blames isLexical (Token.Kind.scan o l bytes) := by
  apply Token.Kind.blames_scan
  · intro cause h
    exact ((Bool.and_eq_true _ _).mp h).1
  · intro b rest _ _ f hf
    exact isLexical_of_isSpelling (StringLiteral.blames_scanBody b rest f hf)

end LocatedJson
