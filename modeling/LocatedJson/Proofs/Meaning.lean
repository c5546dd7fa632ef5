import LocatedJson.Proofs.Parsing.Whole
import LocatedJson.Proofs.RoundedNumbers

/-! What documents stand for. The value of a literal and the members of an object are told by what
is to hold of them and not by how they are computed: in an object each key stands once, where it is
first written and with what is written for it last, and how a key is quoted and escaped plays no
part. -/
namespace LocatedJson

open Grammar

namespace Value

variable {key : String} {value : Value} {written members : List (String × Value)}

/-- What an object makes of the members written in it. -/
structure Collects (written members : List (String × Value)) : Prop where
  nodup : (members.map Prod.fst).Nodup
  keys : members.map Prod.fst = (written.map Prod.fst).eraseDups
  last : ∀ front back key value, written = front ++ (key, value) :: back →
    key ∉ back.map Prod.fst → (key, value) ∈ members

theorem keys_setMember (key : String) (value : Value) (members : List (String × Value)) :
    (setMember key value members).map Prod.fst =
      if key ∈ members.map Prod.fst then members.map Prod.fst
      else members.map Prod.fst ++ [key] := by
  induction members with
  | nil => rfl
  | cons m members ih =>
    obtain ⟨k, v⟩ := m
    by_cases hk : k = key
    · simp [setMember, hk]
    · simp only [setMember, if_neg hk, List.map_cons, ih, List.mem_cons, Ne.symm hk, false_or]
      split
      · rfl
      · rfl

theorem mem_setMember (key : String) (value : Value) (members : List (String × Value)) :
    (key, value) ∈ setMember key value members := by
  induction members with
  | nil => exact List.mem_singleton_self _
  | cons m members ih =>
    obtain ⟨k, v⟩ := m
    by_cases hk : k = key
    · simp [setMember, hk]
    · rw [setMember, if_neg hk]
      exact List.mem_cons_of_mem _ ih

theorem mem_setMember_of_ne {other : String} {v : Value} (hne : other ≠ key)
    (h : (other, v) ∈ members) : (other, v) ∈ setMember key value members := by
  induction members with
  | nil => cases h
  | cons m members ih =>
    obtain ⟨k, w⟩ := m
    by_cases hk : k = key
    · rw [setMember, if_pos hk]
      rcases List.mem_cons.1 h with heq | hmem
      · exact absurd ((congrArg Prod.fst heq).trans hk) hne
      · exact List.mem_cons_of_mem _ hmem
    · rw [setMember, if_neg hk]
      rcases List.mem_cons.1 h with heq | hmem
      · rw [heq]
        exact List.mem_cons_self
      · exact List.mem_cons_of_mem _ (ih hmem)

theorem eraseDups_concat {α : Type} [DecidableEq α] (l : List α) (a : α) :
    (l ++ [a]).eraseDups = if a ∈ l then l.eraseDups else l.eraseDups ++ [a] := by
  rw [List.eraseDups_append]
  by_cases h : a ∈ l
  · simp [List.removeAll, h]
  · simp [List.removeAll, List.eraseDups_cons, h]

theorem Collects.setMember (h : Collects written members) (key : String) (value : Value) :
    Collects (written ++ [(key, value)]) (setMember key value members) where
  nodup := by
    rw [keys_setMember]
    split
    · exact h.nodup
    · next hnew =>
      rw [← List.concat_eq_append]
      exact h.nodup.concat hnew
  keys := by
    have hmem : key ∈ members.map Prod.fst ↔ key ∈ written.map Prod.fst := by
      rw [h.keys, List.mem_eraseDups]
    rw [keys_setMember, List.map_append, List.map_singleton, eraseDups_concat,
      if_congr hmem rfl rfl, h.keys]
  last := by
    intro front back key' value' hsplit hback
    rcases List.eq_nil_or_concat' back with rfl | ⟨back, m, rfl⟩
    · obtain ⟨-, hlast⟩ := List.append_inj' hsplit rfl
      cases hlast
      exact mem_setMember key value members
    · rw [← List.cons_append, ← List.append_assoc] at hsplit
      obtain ⟨hwritten, hlast⟩ := List.append_inj' hsplit rfl
      cases hlast
      simp only [List.map_append, List.mem_append, not_or, List.map_singleton,
        List.mem_singleton] at hback
      exact mem_setMember_of_ne hback.2 (h.last _ _ _ _ hwritten hback.1)

theorem collects_collectMembers (written : List (String × Value)) :
    Collects written (collectMembers written) := by
  induction written using List.reverseRecOn with
  | nil => exact ⟨List.nodup_nil, rfl, by simp⟩
  | append_singleton written m ih =>
    rw [collectMembers, List.foldl_append]
    exact ih.setMember m.1 m.2

theorem exists_last (h : key ∈ written.map Prod.fst) :
    ∃ front back value, written = front ++ (key, value) :: back ∧ key ∉ back.map Prod.fst := by
  induction written with
  | nil => cases h
  | cons m written ih =>
    by_cases hlater : key ∈ written.map Prod.fst
    · obtain ⟨front, back, value, rfl, hback⟩ := ih hlater
      exact ⟨m :: front, back, value, rfl, hback⟩
    · obtain ⟨k, v⟩ := m
      obtain rfl : key = k := (List.mem_cons.1 h).resolve_right hlater
      exact ⟨[], written, v, rfl, hlater⟩

theorem Collects.unique {members' : List (String × Value)} (h : Collects written members)
    (h' : Collects written members') : members = members' := by
  have hkeys : members.map Prod.fst = members'.map Prod.fst := h.keys.trans h'.keys.symm
  have hsub (m : String × Value) (hm : m ∈ members) : m ∈ members' := by
    have hkey : m.1 ∈ written.map Prod.fst := by
      rw [← List.mem_eraseDups, ← h.keys]
      exact List.mem_map_of_mem hm
    obtain ⟨front, back, value, hsplit, hback⟩ := exists_last hkey
    have heq : m = (m.1, value) :=
      List.inj_on_of_nodup_map h.nodup hm (h.last _ _ _ _ hsplit hback) rfl
    rw [heq]
    exact h'.last _ _ _ _ hsplit hback
  refine List.ext_getElem (by simpa using congrArg List.length hkeys) fun i hi hi' => ?_
  apply List.inj_on_of_nodup_map h'.nodup (hsub _ (List.getElem_mem hi)) (List.getElem_mem hi')
  simpa [hi, hi'] using congrArg (·[i]?) hkeys

end Value

namespace Grammar

/-- What a literal stands for. Digits alone are an integer, and with a fraction or an exponent they
are a binary64; the numbers written with letters are given by their bits. -/
inductive Scalar.Means : Scalar → Value → Prop where
  | bool (b : Bool) : Means (.word (.bool b)) (.bool b)
  | null : Means (.word .null) .null
  | infinity : Means (.special .infinity) (.number (.float ⟨0x7ff0000000000000⟩))
  | negativeInfinity : Means (.special .negativeInfinity) (.number (.float ⟨0xfff0000000000000⟩))
  | nan : Means (.special .nan) (.number (.float ⟨0x7ff8000000000000⟩))
  | integer {n : Decimal} (hfraction : n.fraction = none) (hexponent : n.exponent = none) :
      Means (.decimal n) (.number (.int n.integer))
  | float {n : Decimal} {x : Binary64} (h : n.fraction ≠ none ∨ n.exponent ≠ none)
      (hx : x.CorrectlyRounded n.sign.isNegative n.exact) : Means (.decimal n) (.number (.float x))
  | string (q : Quoted) : Means (.string q) (.string q.string)

namespace Scalar

theorem means_value (x : Scalar) : x.Means x.value := by
  match x with
  | word (.bool b) => exact .bool b
  | word .null => exact .null
  | special .infinity => exact .infinity
  | special .negativeInfinity => exact .negativeInfinity
  | special .nan => exact .nan
  | string q => exact .string q
  | decimal n =>
    by_cases h : n.fraction = none ∧ n.exponent = none
    · rw [value, Decimal.toNumber_of_integer h.1 h.2]
      exact .integer h.1 h.2
    · rw [value, Decimal.toNumber_of_not_integer h]
      exact .float (not_and_or.1 h) ((n.correctlyRounded_iff _).2 rfl)

theorem Means.unique {x : Scalar} {v v' : Value} (h : x.Means v) (h' : x.Means v') : v = v' := by
  cases h with
  | bool b | null | infinity | negativeInfinity | nan | string q =>
    cases h'
    rfl
  | integer hfraction hexponent =>
    cases h' with
    | integer _ _ => rfl
    | float h _ => exact absurd ⟨hfraction, hexponent⟩ (not_and_or.2 h)
  | float h hx =>
    cases h' with
    | integer hfraction hexponent => exact absurd ⟨hfraction, hexponent⟩ (not_and_or.2 h)
    | float _ hx' =>
      -- there is one binary64 that the number rounds to
      rw [(Decimal.correctlyRounded_iff _ _).1 hx, (Decimal.correctlyRounded_iff _ _).1 hx']

end Scalar

/-- What a phrase stands for, in every part of it. The members of an object are collected by their
decoded keys. -/
inductive Denotes : {c : Category} → Phrase c → Meaning c → Prop where
  | scalar {x : Scalar} {v : Value} (h : x.Means v) : Denotes (.scalar x) v
  | hollowArray (gap : Gap) : Denotes (.hollow .array gap) (Value.array [])
  | hollowObject (gap : Gap) : Denotes (.hollow .object gap) (Value.object [])
  | array {items : Phrase (.items .array)} {elements : List Value} (h : Denotes items elements) :
      Denotes (.filled .array items) (Value.array elements)
  | object {items : Phrase (.items .object)} {written members : List (String × Value)}
      (h : Denotes items written) (hmembers : Value.Collects written members) :
      Denotes (.filled .object items) (Value.object members)
  | lastElement {front back : Gap} {p : Phrase .value} {v : Value} (h : Denotes p v) :
      Denotes (.last .element front p back) [v]
  | moreElement {front back : Gap} {p : Phrase .value} {rest : Phrase (.items .array)} {v : Value}
      {elements : List Value} (h : Denotes p v) (hrest : Denotes rest elements) :
      Denotes (.more .element front p back rest) (v :: elements)
  | lastMember {before behind front back : Gap} {key : Quoted} {p : Phrase .value} {v : Value}
      (h : Denotes p v) :
      Denotes (.last (.member before key behind) front p back) [(key.string, v)]
  | moreMember {before behind front back : Gap} {key : Quoted} {p : Phrase .value}
      {rest : Phrase (.items .object)} {v : Value} {written : List (String × Value)}
      (h : Denotes p v) (hrest : Denotes rest written) :
      Denotes (.more (.member before key behind) front p back rest) ((key.string, v) :: written)

theorem denotes_meaning {c : Category} (p : Phrase c) : Denotes p p.meaning := by
  induction p with
  | scalar x => exact .scalar x.means_value
  | hollow s gap =>
    cases s with
    | array => exact .hollowArray gap
    | object => exact .hollowObject gap
  | filled s items ih =>
    cases s with
    | array => exact .array ih
    | object => exact .object ih (Value.collects_collectMembers _)
  | last lead front p back ih =>
    cases lead with
    | element => exact .lastElement ih
    | member before key behind => exact .lastMember ih
  | more lead front p back rest ih ihrest =>
    cases lead with
    | element => exact .moreElement ih ihrest
    | member before key behind => exact .moreMember ih ihrest

theorem Denotes.unique {c : Category} {p : Phrase c} {m m' : Meaning c} (h : Denotes p m)
    (h' : Denotes p m') : m = m' := by
  induction h with
  | scalar h =>
    cases h' with
    | scalar h' => exact h.unique h'
  | hollowArray gap =>
    cases h'
    rfl
  | hollowObject gap =>
    cases h'
    rfl
  | array h ih =>
    cases h' with
    | array h' => rw [ih h']
  | object h hmembers ih =>
    cases h' with
    | object h' hmembers' =>
      obtain rfl := ih h'
      rw [hmembers.unique hmembers']
  | lastElement h ih =>
    cases h' with
    | lastElement h' => rw [ih h']
  | moreElement h hrest ih ihrest =>
    cases h' with
    | moreElement h' hrest' => rw [ih h', ihrest hrest']
  | lastMember h ih =>
    cases h' with
    | lastMember h' => rw [ih h']
  | moreMember h hrest ih ihrest =>
    cases h' with
    | moreMember h' hrest' => rw [ih h', ihrest hrest']

theorem denotes_iff {c : Category} {p : Phrase c} {m : Meaning c} :
    Denotes p m ↔ m = p.meaning :=
  ⟨fun h => h.unique (denotes_meaning p), fun h => h ▸ denotes_meaning p⟩

theorem Document.value_read {o : Options} {l : Limits} {d : Document} (hd : d.Admitted o .paired)
    (hl : d.phrase.Within l) (levels : Nat) (hlevels : d.phrase.nesting ≤ levels)
    (hnesting : d.phrase.nesting ≤ l.nestingDepth.val) :
    ∃ st, Parser.value o l levels (.start d.text) = .ok d.phrase.value st := by
  have hends : d.phrase.EndsBefore d.back.bytes := by
    rw [← List.append_nil d.back.bytes]
    exact d.phrase.endsBefore_gap d.back nofun
  exact ⟨_, Parser.readable hd hl levels 0 [] d.front d.back.bytes _ hlevels hnesting hends
    (Parser.looks_none _ 0)⟩

/-- However a text is derived, it has one value. -/
theorem Document.value_eq_of_text_eq {o : Options} {d d' : Document} (hd : d.Admitted o .paired)
    (hd' : d'.Admitted o .paired) (hl : d.phrase.Within {}) (hl' : d'.phrase.Within {})
    (htext : d.text = d'.text) : d.phrase.value = d'.phrase.value := by
  -- both are read by a parser that follows enough levels for either
  let levels := d.phrase.nesting + d'.phrase.nesting
  let limits : Limits := { nestingDepth := ⟨levels + 1, Nat.succ_pos _⟩ }
  obtain ⟨st, hread⟩ := Document.value_read (l := limits) hd hl levels
    (Nat.le_add_right _ _) (by simp only [limits, levels]; omega)
  obtain ⟨st', hread'⟩ := Document.value_read (l := limits) hd' hl' levels
    (Nat.le_add_left _ _) (by simp only [limits, levels]; omega)
  rw [htext, hread'] at hread
  injection hread with hvalue
  exact hvalue.symm

end Grammar

/-- An accepted text has a derivation, and in every derivation of it the value is what its parts
stand for; keys are told apart by their characters. -/
theorem Source.parse_denotes {s : Source} {c : Contents} (hc : s.contents = some c)
    {levels : Nat} {config : Config} {v : Value} (h : s.parse levels config = .ok v) :
    (∃ d : Document, d.text = c.text ∧ d.Admitted config.options .paired ∧ d.phrase.Within {}) ∧
    (∀ d : Document, d.text = c.text → d.Admitted config.options .paired → d.phrase.Within {} →
      ∀ w, Denotes d.phrase w ↔ w = v) ∧
    ∀ key key' : Quoted, key.string = key'.string ↔ key.chars = key'.chars := by
  obtain ⟨d, htext, hd, hl, -, hvalue⟩ := spells_of_parseText ((Source.parse_eq_ok hc).1 h)
  refine ⟨⟨d, htext, hd, hl.unlimited⟩, fun d' htext' hd' hl' w => ?_, fun key key' => ?_⟩
  · have hv : d'.phrase.value = v := by
      rw [← hvalue]
      exact Document.value_eq_of_text_eq hd' hd hl' hl.unlimited (htext'.trans htext.symm)
    rw [denotes_iff, ← hv]
    rfl
  · exact String.ofList_inj

def respelledKey : List Byte :=
  [0x7b, 0x22, 0x61, 0x22, 0x3a, 0x31, 0x2c, 0x27, 0x5c, 0x75, 0x30, 0x30,
    0x36, 0x31, 0x27, 0x3a, 0x32, 0x2c, 0x22, 0x62, 0x22, 0x3a, 0x33, 0x7d]

theorem Source.parse_respelledKey_denotes :
    (Source.ofBytes "keys.json" respelledKey).parse 256 .relaxed =
        .ok (.object [("a", .number (.int 2)), ("b", .number (.int 3))]) ∧
      ∃ d : Document, d.text = respelledKey ∧
        Denotes d.phrase (Value.object [("a", .number (.int 2)), ("b", .number (.int 3))]) := by
  have hparse : (Source.ofBytes "keys.json" respelledKey).parse 256 .relaxed =
      .ok (.object [("a", .number (.int 2)), ("b", .number (.int 3))]) := by cbv
  obtain ⟨⟨d, htext, hd, hl⟩, hdenotes, -⟩ :=
    Source.parse_denotes (c := .ofBytes respelledKey) rfl hparse
  exact ⟨hparse, d, htext.trans (Contents.text_ofBytes _), (hdenotes d htext hd hl _).2 rfl⟩

end LocatedJson
