import LocatedJson.Proofs.Grammar.Phrase

/-! Broken-off documents. A context is a document up to where a value or the rest of a structure
is due; whatever is put there, brackets that are still open can be closed behind it. -/
namespace LocatedJson.Grammar

inductive Context : Category → Type where
  | root : Context .value
  | entry {s : Structure} (k : Context (.items s)) (lead : Lead s) : Context .value
  | inside (k : Context .value) (gap : Gap) (s : Structure) : Context (.items s)
  | next {s : Structure} (k : Context (.items s)) (lead : Lead s) (front : Gap)
      (p : Phrase .value) (back : Gap) : Context (.items s)

def Filling : Category → Type
  | .value => Document
  | .items s => Phrase (.items s)

namespace Filling

def text : {c : Category} → Filling c → List Byte
  | .value, d => Document.text d
  | .items _, items => Phrase.text items

def scalars : {c : Category} → Filling c → List Scalar
  | .value, d => d.phrase.scalars
  | .items _, items => Phrase.scalars items

end Filling

namespace Context

def text {c : Category} : Context c → List Byte
  | root => []
  | entry k lead => k.text ++ lead.text
  | inside k gap s => k.text ++ (gap.bytes ++ [s.opening.byte])
  | next k lead front p back =>
    k.text ++ (lead.text ++ (front.bytes ++ (p.text ++ (back.bytes ++ [Mark.comma.byte]))))

def scalars {c : Category} : Context c → List Scalar
  | root => []
  | entry k lead => k.scalars ++ lead.scalars
  | inside k _ _ => k.scalars
  | next k lead _ p _ => k.scalars ++ (lead.scalars ++ p.scalars)

def Admitted {c : Category} (o : Options) (rule : Surrogates) (k : Context c) : Prop :=
  ∀ x ∈ k.scalars, x.Admitted o rule

def plug {c : Category} : Context c → Filling c → Document
  | root, d => d
  | entry k lead, d => k.plug (.last lead d.front d.phrase d.back)
  | inside k gap s, items => k.plug ⟨gap, .filled s items, Gap.none⟩
  | next k lead front p back, items => k.plug (.more lead front p back items)

def parent {c : Category} : Context c → Option Structure
  | root => none
  | @entry s _ _ => some s
  | inside _ _ s => some s
  | @next s _ _ _ _ _ => some s

def closes {c : Category} : Context c → Option Structure
  | root => none
  | entry k .element => k.closes
  | entry _ (.member ..) => none
  | inside _ _ s => some s
  | next .. => none

theorem text_plug {c : Category} (k : Context c) (f : Filling c) :
    k.text ++ f.text <+: (k.plug f).text := by
  induction k with
  | root => exact List.prefix_rfl
  | entry k lead ih =>
    have h := ih (.last lead f.front f.phrase f.back)
    simpa [text, plug, Filling.text, Document.text, Phrase.text] using h
  | inside k gap s ih =>
    have h := ih ⟨gap, .filled s f, Gap.none⟩
    refine List.IsPrefix.trans ?_ h
    simp [text, Filling.text, Document.text, Phrase.text, List.prefix_append_right_inj]
  | next k lead front p back ih =>
    have h := ih (.more lead front p back f)
    simpa [text, plug, Filling.text, Phrase.text] using h

theorem admitted_plug {c : Category} {o : Options} {rule : Surrogates} {k : Context c}
    {f : Filling c} (hk : k.Admitted o rule) (hf : ∀ x ∈ f.scalars, x.Admitted o rule) :
    (k.plug f).Admitted o rule := by
  induction k with
  | root => exact hf
  | entry k lead ih =>
    apply ih
    · exact fun x hx => hk x (List.mem_append_left _ hx)
    · intro x hx
      rcases List.mem_append.1 hx with hx | hx
      · exact hk x (List.mem_append_right _ hx)
      · exact hf x hx
  | inside k gap s ih => exact ih hk hf
  | next k lead front p back ih =>
    apply ih
    · exact fun x hx => hk x (List.mem_append_left _ hx)
    · intro x hx
      rcases List.mem_append.1 hx with hx | hx
      · exact hk x (List.mem_append_right _ (List.mem_append_left _ hx))
      · rcases List.mem_append.1 hx with hx | hx
        · exact hk x (List.mem_append_right _ (List.mem_append_right _ hx))
        · exact hf x hx

end Context

theorem Opens.of_front {o : Options} {rule : Surrogates} {text more : List Byte}
    (h : Opens o rule more) (hfront : text <+: more) : Opens o rule text := by
  obtain ⟨d, hd, htext⟩ := h
  exact ⟨d, hd, hfront.trans htext⟩

theorem opens_fill {c : Category} {o : Options} {rule : Surrogates} {k : Context c}
    (hk : k.Admitted o rule) (f : Filling c) (hf : ∀ x ∈ f.scalars, x.Admitted o rule) :
    Opens o rule (k.text ++ f.text) :=
  ⟨k.plug f, Context.admitted_plug hk hf, Context.text_plug k f⟩

/-- Where a document may be broken off between two tokens. -/
inductive Place where
  | value (k : Context .value) (gap : Gap)
  | key (k : Context (.items .object)) (gap : Gap)
  | colon (k : Context (.items .object)) (front : Gap) (q : Quoted) (back : Gap)
  | after (k : Context .value) (front : Gap) (p : Phrase .value) (back : Gap)

namespace Place

def text : Place → List Byte
  | value k gap => k.text ++ gap.bytes
  | key k gap => k.text ++ gap.bytes
  | colon k front q back => k.text ++ (front.bytes ++ (q.text ++ back.bytes))
  | after k front p back => k.text ++ (front.bytes ++ (p.text ++ back.bytes))

def scalars : Place → List Scalar
  | value k _ => k.scalars
  | key k _ => k.scalars
  | colon k _ q _ => k.scalars ++ [.string q]
  | after k _ p _ => k.scalars ++ p.scalars

def Admitted (o : Options) (rule : Surrogates) (place : Place) : Prop :=
  ∀ x ∈ place.scalars, x.Admitted o rule

theorem Admitted.free {o : Options} {place : Place} (h : place.Admitted o .paired) :
    place.Admitted o .free :=
  fun x hx => (h x hx).free

def EndsBefore (rest : List Byte) : Place → Prop
  | after _ _ p back => p.EndsBefore (back.bytes ++ rest)
  | _ => True

def Expects : Place → Lexeme → Prop
  | value k _, x => (∃ v, x = .scalar v) ∨ (∃ s : Structure, x = .mark s.opening) ∨
      ∃ s, k.closes = some s ∧ x = .mark s.closing
  | key k _, x => (∃ q, x = .scalar (.string q)) ∨ ∃ s, k.closes = some s ∧ x = .mark s.closing
  | colon .., x => x = .mark .colon
  | after k _ _ _, x => ∃ s, k.parent = some s ∧ (x = .mark .comma ∨ x = .mark s.closing)

theorem opens_scalar {o : Options} {rule : Surrogates} {place : Place}
    (hp : place.Admitted o rule) {x : Scalar} (hx : x.Admitted o rule)
    (h : place.Expects (.scalar x)) :
    Opens o rule (place.text ++ x.text) := by
  cases place with
  | value k gap =>
    have hopens := opens_fill hp (⟨gap, .scalar x, Gap.none⟩ : Document) (by
      intro y hy
      rw [List.mem_singleton.1 hy]
      exact hx)
    simpa [text, Filling.text, Document.text, Phrase.text] using hopens
  | key k gap =>
    obtain ⟨q, rfl⟩ : ∃ q, x = .string q := by
      rcases h with ⟨q, hq⟩ | ⟨s, -, hs⟩
      · exact ⟨q, Lexeme.scalar.inj hq⟩
      · cases hs
    -- a key with a colon and a value behind it
    have hopens := opens_fill hp (Phrase.last (.member gap q Gap.none) Gap.none
      (.scalar (.word .null)) Gap.none) (by
        intro y hy
        rcases List.mem_cons.1 hy with rfl | hy
        · exact hx
        · rw [List.mem_singleton.1 hy]
          trivial)
    refine hopens.of_front ?_
    simp [text, Filling.text, Phrase.text, Lead.text, Scalar.text, List.prefix_append_right_inj]
  | colon k front q back => cases h
  | after k front p back =>
    obtain ⟨s, -, hcomma | hclosing⟩ := h
    · cases hcomma
    · cases hclosing

theorem opens_text {o : Options} {rule : Surrogates} {place : Place}
    (hp : place.Admitted o rule) : Opens o rule place.text := by
  cases place with
  | value k gap =>
    have h := opens_scalar hp (x := .word .null) trivial (.inl ⟨_, rfl⟩)
    exact h.of_front (List.prefix_append _ _)
  | key k gap =>
    have h := opens_scalar hp (x := .string ⟨.double, []⟩) ⟨trivial, nofun⟩ (.inl ⟨_, rfl⟩)
    exact h.of_front (List.prefix_append _ _)
  | colon k front q back =>
    have hk : k.Admitted o rule := fun x hx => hp x (List.mem_append_left _ hx)
    have hkey : (Scalar.string q).Admitted o rule := hp _ (List.mem_append_right _ (by simp))
    have hopens := opens_fill hk (Phrase.last (.member front q back) Gap.none
      (.scalar (.word .null)) Gap.none) (by
        intro y hy
        rcases List.mem_cons.1 hy with rfl | hy
        · exact hkey
        · rw [List.mem_singleton.1 hy]
          trivial)
    refine hopens.of_front ?_
    simp [text, Filling.text, Phrase.text, Lead.text, List.prefix_append_right_inj]
  | after k front p back =>
    have hk : k.Admitted o rule := fun x hx => hp x (List.mem_append_left _ hx)
    exact opens_fill hk (⟨front, p, back⟩ : Document) fun x hx =>
      hp x (List.mem_append_right _ hx)

end Place

end LocatedJson.Grammar
