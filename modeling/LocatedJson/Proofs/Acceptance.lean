import LocatedJson.Proofs.Meaning

/-! A source is accepted exactly when its text is a document of the grammar within the limits, and
what comes back is the value that the grammar gives to it. -/
namespace LocatedJson

open LocatedJson.Grammar

theorem Source.parse_ok_iff_document {s : Source} {c : Contents} (hc : s.contents = some c)
    {levels : Nat} {config : Config} (hlevels : config.limits.nestingDepth.val ≤ levels)
    (v : Value) :
    s.parse levels config = .ok v ↔
      (∀ bound ∈ config.limits.inputSize, c.size ≤ bound.val) ∧
      ∃ d : Document, d.text = c.text ∧ d.Admitted config.options .paired ∧ Denotes d.phrase v ∧
        d.phrase.nesting ≤ config.limits.nestingDepth.val ∧
        ∀ x ∈ d.phrase.scalars, x.Within config.limits := by
  rw [Source.parse_eq_ok hc, parseText_eq_ok_iff hlevels, Contents.length_text,
    Limits.bound_inputSize, Option.forall_mem_map]
  refine and_congr_right fun _ => exists_congr fun d => ?_
  constructor
  · rintro ⟨htext, hadmitted, hwithin, hnesting, hvalue⟩
    exact ⟨htext, hadmitted, denotes_iff.2 hvalue.symm, hnesting, hwithin⟩
  · rintro ⟨htext, hadmitted, hdenotes, hnesting, hwithin⟩
    exact ⟨htext, hadmitted, hwithin, hnesting, (denotes_iff.1 hdenotes).symm⟩

namespace Grammar

def plusSeven : Decimal where
  sign := .plus
  whole := .positive ⟨[0x37], by decide, List.forall_mem_singleton.2 (by decide)⟩ (by decide)
  fraction := none
  exponent := none
  mantissa := nofun

def codedLetter : Quoted := ⟨.double, [.code ⟨[0x30, 0x30, 0x65, 0x46], rfl, by decide +kernel⟩]⟩

/-- The key `a`, and for it an array of a number, a letter and a number without digits. -/
def Document.sample : Document where
  front := Gap.none
  phrase := .filled .object (.last (.member Gap.none ⟨.single, [.plain 'a']⟩ Gap.none) Gap.none
    (.filled .array
      (.more .element Gap.none (.scalar (.decimal plusSeven)) Gap.none
      (.more .element Gap.none (.scalar (.string codedLetter)) Gap.none
      (.last .element Gap.none (.scalar (.special .negativeInfinity)) Gap.none)))) Gap.none)
  back := Gap.none

theorem Document.sample_denotes :
    Denotes sample.phrase (Value.object [("a", .array
      [.number (.int 7), .string "ï", .number (.float ⟨0xfff0000000000000⟩)])]) :=
  .object (.lastMember (.array (.moreElement (.scalar (.integer rfl rfl))
    (.moreElement (.scalar (.string codedLetter)) (.lastElement (.scalar .negativeInfinity))))))
    (Value.collects_collectMembers [_])

theorem Document.sample_admitted : sample.Admitted .relaxed .paired := by
  have hkey : (Scalar.string ⟨.single, [.plain 'a']⟩).Admitted .relaxed .paired :=
    ⟨rfl, List.forall_mem_singleton.2 ⟨by decide, by decide, by decide⟩⟩
  have hletter : (Scalar.string codedLetter).Admitted .relaxed .paired := by
    refine ⟨trivial, List.forall_mem_singleton.2 fun _ => ?_⟩
    unfold HexDigits.IsHigh HexDigits.IsLow
    decide +kernel
  exact List.forall_mem_cons.2 ⟨hkey, List.forall_mem_cons.2 ⟨⟨fun _ => rfl, nofun⟩,
    List.forall_mem_cons.2 ⟨hletter, List.forall_mem_singleton.2 rfl⟩⟩⟩

end Grammar

theorem Source.parse_ok_sample :
    (Source.ofText "sample" "\x7b'a':[+7,\"\\u00eF\",-Infinity]\x7d").parse 256 .relaxed =
      .ok (.object [("a", .array
        [.number (.int 7), .string "ï", .number (.float ⟨0xfff0000000000000⟩)])]) := by
  refine (Source.parse_ok_iff_document (c := .ofBytes _) rfl (by decide : 256 ≤ 256) _).2 ⟨nofun,
    Document.sample, by decide +kernel, Document.sample_admitted, Document.sample_denotes,
    by decide, ?_⟩
  exact List.forall_mem_cons.2 ⟨nofun, List.forall_mem_cons.2 ⟨⟨nofun, fun _ _ => by decide⟩,
    List.forall_mem_cons.2 ⟨nofun, List.forall_mem_singleton.2 trivial⟩⟩⟩

end LocatedJson
