import LocatedJson.Proofs.Pushdown.Agreement

/-! Parsing on demand is parsing the tokens as a list. The list is that of the lexer run by itself;
a token it refuses matters only if the grammar asks for it, and not behind the value, where data is
told by its first byte. -/
namespace LocatedJson

namespace Lexed

variable {o : Options} {l : Limits}

/-- Cutting finds what the lexer finds by itself, whose bound is never used up. -/
theorem cut_eq_tokensWithin {bound : Nat} {c : Cursor} (h : c.rest.length < bound) :
    (cut o l c).found = (tokensWithin o l bound c).found ∧
      (cut o l c).failure = (tokensWithin o l bound c).failure := by
  induction bound generalizing c with
  | zero => omega
  | succ bound ih =>
    unfold tokensWithin
    cases hnext : Cursor.nextToken o l c with
    | error failure c' =>
      rw [cut_error hnext]
      exact ⟨rfl, rfl⟩
    | ok t c' =>
      obtain ⟨kind, offset⟩ := t
      dsimp only
      by_cases heof : kind = .eof
      · subst heof
        rw [cut_eof hnext, if_pos rfl]
        exact ⟨rfl, rfl⟩
      · have hlt := Cursor.length_rest_lt hnext heof
        have hrest := @ih c' (by omega)
        rw [cut_token hnext heof, if_neg heof]
        exact ⟨congrArg _ hrest.1, hrest.2⟩

theorem ofText_eq_tokens (o : Options) (l : Limits) (text : List Byte) :
    (ofText o l text).found = (tokens o l text).found ∧
      (ofText o l text).failure = (tokens o l text).failure :=
  cut_eq_tokensWithin (Nat.lt_succ_self _)

end Lexed

/-- The tokens of a source and how they end are what the lexer finds by itself, and parsing the
source is going over them: the same value, or the same failure and report. -/
theorem Source.parse_eq_parse_lexed {s : Source} {c : Contents} (hc : s.contents = some c)
    {levels : Nat} (config : Config) (hlevels : config.limits.nestingDepth.val ≤ levels) :
    let lexed := Lexed.ofText config.options config.limits c.text
    lexed.found = (tokens config.options config.limits c.text).found ∧
      lexed.failure = (tokens config.options config.limits c.text).failure ∧
      s.parse levels config = s.outcome config (lexed.parse config.limits c.size) := by
  intro lexed
  have htokens := Lexed.ofText_eq_tokens config.options config.limits c.text
  refine ⟨htokens.1, htokens.2, ?_⟩
  rw [Source.parse_eq_outcome hc, parseText_eq_parse_ofText hlevels, Contents.length_text]

def trailingString : List Byte := [0x31, 0x20, 0x22, 0x61, 0x62, 0x63]

/-- The lexer by itself runs into the string. The parser does not ask for it, and tells of trailing
data. -/
theorem Source.parse_trailingString :
    (tokens .strict {} trailingString).failure = some ⟨.unterminatedString, 6⟩ ∧
      (Source.ofBytes "trailing.json" trailingString).parse 256 .strict =
        (Source.ofBytes "trailing.json" trailingString).outcome .strict
          (.error ⟨.trailingData, 2⟩) := by
  have hvalue : Cursor.nextToken .strict {} (.start trailingString) =
      .ok ⟨.number (.int 1), 0⟩ ⟨1, [0x20, 0x22, 0x61, 0x62, 0x63]⟩ := by cbv
  have hstring : Cursor.nextToken .strict {} ⟨1, [0x20, 0x22, 0x61, 0x62, 0x63]⟩ =
      .error ⟨.unterminatedString, 6⟩ ⟨6, []⟩ := by cbv
  have hlexed : Lexed.ofText .strict {} (Contents.ofBytes trailingString).text =
      .token ⟨.number (.int 1), 0⟩ (.refused 2 ⟨.unterminatedString, 6⟩) := by
    rw [Contents.text_ofBytes, Lexed.ofText, Lexed.cut_token hvalue (by simp),
      Lexed.cut_error hstring]
    rfl
  obtain ⟨-, hfailure, hparse⟩ := Source.parse_eq_parse_lexed
    (s := .ofBytes "trailing.json" trailingString) (c := .ofBytes trailingString) rfl .strict
    (by decide : 256 ≤ 256)
  simp only [Config.strict, Options.strict] at hlexed hfailure hparse
  rw [hlexed] at hfailure hparse
  exact ⟨hfailure.symm, hparse⟩

end LocatedJson
