import LocatedJson.Proofs.Parsing.Steps

/-! Every phrase is read: from a phrase within the limits the parser gets its meaning and stands
right behind it. -/
namespace LocatedJson

open Grammar

namespace Grammar

open Token.Kind (separators mem_separators_of_isBlank byte_mem_separators)

theorem head_mem_separators (gap : Gap) {rest : List Byte} (h : ∀ b ∈ rest.head?, b ∈ separators) :
    ∀ b ∈ (gap.bytes ++ rest).head?, b ∈ separators := by
  intro b hb
  cases hgap : gap.bytes with
  | nil =>
    rw [hgap] at hb
    exact h b hb
  | cons b' tail =>
    rw [hgap] at hb
    cases hb
    exact mem_separators_of_isBlank (gap.blank b (by rw [hgap]; exact List.mem_cons_self))

theorem Phrase.endsBefore_gap (p : Phrase .value) (gap : Gap) {rest : List Byte}
    (h : ∀ b ∈ rest.head?, b ∈ separators) : p.EndsBefore (gap.bytes ++ rest) := by
  match p with
  | .scalar (.decimal n) =>
    intro b hb
    exact Token.Kind.continuedBy_eq_false (head_mem_separators gap h b hb) n
  | .scalar (.word _) => trivial
  | .scalar (.special _) => trivial
  | .scalar (.string _) => trivial
  | .hollow _ _ => trivial
  | .filled _ _ => trivial

theorem Phrase.endsBefore_mark (p : Phrase .value) (gap : Gap) (m : Mark) (rest : List Byte) :
    p.EndsBefore (gap.bytes ++ m.byte :: rest) :=
  p.endsBefore_gap gap (by rintro b ⟨⟩; exact byte_mem_separators m)

def Phrase.first : Phrase .value → Lexeme
  | .scalar x => .scalar x
  | .hollow s _ => .mark s.opening
  | .filled s _ => .mark s.opening

def Lead.first {s : Structure} (x : Lexeme) : Lead s → Lexeme
  | .element => x
  | .member _ key _ => .scalar (.string key)

theorem Phrase.first_ne_eof (p : Phrase .value) : p.first.kind ≠ .eof := by
  match p with
  | .scalar (.word (.bool _)) => nofun
  | .scalar (.word .null) => nofun
  | .scalar (.special _) => nofun
  | .scalar (.decimal _) => nofun
  | .scalar (.string _) => nofun
  | .hollow _ _ => nofun
  | .filled _ _ => nofun

theorem Structure.opening_ne_closing (s s' : Structure) : s.opening ≠ s'.closing := by
  cases s <;> cases s' <;> decide

theorem Phrase.first_ne_closing (p : Phrase .value) (s : Structure) :
    p.first.kind ≠ .mark s.closing := by
  have hmark (s' : Structure) : Token.Kind.mark s'.opening ≠ .mark s.closing := fun h =>
    Structure.opening_ne_closing s' s (Token.Kind.mark.inj h)
  match p with
  | .scalar (.word (.bool _)) => nofun
  | .scalar (.word .null) => nofun
  | .scalar (.special _) => nofun
  | .scalar (.decimal _) => nofun
  | .scalar (.string _) => nofun
  | .hollow s' _ => exact hmark s'
  | .filled s' _ => exact hmark s'

theorem Lead.first_ne_closing {s : Structure} (lead : Lead s) (p : Phrase .value) :
    (lead.first p.first).kind ≠ .mark s.closing := by
  cases lead with
  | element => exact p.first_ne_closing .array
  | member front key back => nofun

end Grammar

namespace Cursor

variable {o : Options} {l : Limits}

theorem nextToken_value {p : Phrase .value} (hp : p.Admitted o .paired) (hl : p.Within l)
    (text : List Byte) (front : Gap) {more : List Byte} (hmore : p.EndsBefore more) :
    ∃ offset c, nextToken o l (behind text (front.bytes ++ (p.text ++ more))) =
      .ok ⟨p.first.kind, offset⟩ c ∧ more.length ≤ c.rest.length := by
  have opening (s : Structure) (tail : List Byte) :
      nextToken o l (behind text (front.bytes ++ (s.opening.byte :: tail ++ more))) =
        .ok ⟨.mark s.opening, (text ++ front.bytes).length⟩
          (behind (text ++ (front.bytes ++ [s.opening.byte])) (tail ++ more)) :=
    nextToken_mark s.opening text front _
  cases p with
  | scalar x =>
    exact ⟨_, _, nextToken_lexeme (x := .scalar x) (hp x (by simp [Phrase.scalars]))
      (hl x (by simp [Phrase.scalars])) text front hmore, Nat.le_refl _⟩
  | hollow s gap =>
    refine ⟨_, _, opening s _, ?_⟩
    rw [behind, List.length_append]
    exact Nat.le_add_left _ _
  | filled s items =>
    refine ⟨_, _, opening s _, ?_⟩
    rw [behind, List.length_append]
    exact Nat.le_add_left _ _

theorem nextToken_item {s : Structure} {lead : Lead s} {p : Phrase .value}
    (hlead : ∀ x ∈ lead.scalars, x.Admitted o .paired ∧ x.Within l) (hp : p.Admitted o .paired)
    (hl : p.Within l) (text : List Byte) (front : Gap) {more : List Byte}
    (hmore : p.EndsBefore more) :
    ∃ offset c, nextToken o l (behind text (lead.text ++ (front.bytes ++ (p.text ++ more)))) =
      .ok ⟨(lead.first p.first).kind, offset⟩ c ∧ more.length ≤ c.rest.length := by
  cases lead with
  | element => exact nextToken_value hp hl text front hmore
  | member gap key back =>
    obtain ⟨hkey, hlkey⟩ := hlead (.string key) (by simp [Lead.scalars])
    refine ⟨(text ++ gap.bytes).length, behind (text ++ (gap.bytes ++ key.text))
      (back.bytes ++ Mark.colon.byte :: (front.bytes ++ (p.text ++ more))), ?_, ?_⟩
    · rw [Lead.text, List.append_assoc, List.append_assoc, List.append_assoc]
      exact nextToken_string hkey hlkey text gap _
    · simp only [behind, List.length_append, List.length_cons]
      omega

end Cursor

namespace Parser

variable {o : Options} {l : Limits}

/-- The bound on the number of items is not reached: fewer bytes are left behind the next
token. -/
def Room (o : Options) (l : Limits) (c : Cursor) (bound : Nat) : Prop :=
  0 < bound ∧ ∀ t c', Cursor.nextToken o l c = .ok t c' → c'.rest.length < bound

theorem memberKey_ok {key : Quoted} (hkey : key.Admitted o .paired)
    (hl : (Scalar.string key).Within l) (text : List Byte) (gap back : Gap) (rest : List Byte)
    {d : Nat} {st : State}
    (hst : Looks o l (.behind text (gap.bytes ++ (key.text ++
      (back.bytes ++ (Mark.colon.byte :: rest))))) d st) :
    memberKey o l st = .ok key.string
      ⟨.behind (text ++ (Lead.member gap key back).text) rest, none, d⟩ := by
  have hfirst := Cursor.nextToken_string hkey hl text gap
    (back.bytes ++ (Mark.colon.byte :: rest))
  have hsecond : Cursor.nextToken o l _ = _ :=
    Cursor.nextToken_mark .colon (text ++ (gap.bytes ++ key.text)) back rest
  have htext : text ++ (gap.bytes ++ key.text) ++ (back.bytes ++ [Mark.colon.byte]) =
      text ++ (Lead.member gap key back).text := by simp [Lead.text]
  unfold memberKey
  rw [bind_ok (current_ok hst hfirst)]
  refine (bind_ok (discard_ok (advance_ok (looks_some hfirst d) hfirst))).trans ?_
  rw [bind_ok (current_ok (looks_none _ d) hsecond), if_pos rfl]
  refine (bind_ok (discard_ok (advance_ok (looks_some hsecond d) hsecond))).trans ?_
  rw [← htext]
  rfl

theorem leadOf_complete {s : Structure} {lead : Lead s} {p : Phrase .value}
    (hlead : ∀ x ∈ lead.scalars, x.Admitted o .paired ∧ x.Within l) (hp : p.Admitted o .paired)
    (hl : p.Within l) (text : List Byte) (front : Gap) {more : List Byte}
    (hmore : p.EndsBefore more) {d : Nat} {st : State}
    (hst : Looks o l (.behind text (lead.text ++ (front.bytes ++ (p.text ++ more)))) d st) :
    ∃ st', leadOf o l s st = .ok lead.tag st' ∧
      Looks o l (.behind (text ++ lead.text) (front.bytes ++ (p.text ++ more))) d st' := by
  cases lead with
  | element =>
    obtain ⟨offset, c, hnext, -⟩ := Cursor.nextToken_value hp hl text front hmore
    refine ⟨⟨c, some ⟨p.first.kind, offset⟩, d⟩, ?_, ?_⟩
    · show elementAhead o l st = _
      unfold elementAhead
      rw [bind_ok (current_ok hst hnext), if_neg p.first_ne_eof]
      rfl
    · rw [Lead.text, List.append_nil]
      exact looks_some hnext d
  | member gap key back =>
    obtain ⟨hkey, hlkey⟩ := hlead (.string key) (by simp [Lead.scalars])
    rw [Lead.text, List.append_assoc, List.append_assoc, List.append_assoc] at hst
    exact ⟨_, memberKey_ok hkey hlkey text gap back _ hst, looks_none _ d⟩

/-- What the parser makes of a phrase: of a value, or of items with the closing bracket behind
them. -/
def Readable (o : Options) (l : Limits) : {c : Category} → Phrase c → Prop
  | .value, p =>
    ∀ (levels d : Nat) (text : List Byte) (front : Gap) (rest : List Byte) (st : State),
      p.nesting ≤ levels → p.nesting ≤ l.nestingDepth.val - d → p.EndsBefore rest →
      Looks o l (.behind text (front.bytes ++ (p.text ++ rest))) d st →
      value o l levels st =
        .ok p.value ⟨.behind (text ++ (front.bytes ++ p.text)) rest, none, d⟩
  | .items s, q => ∀ (levels d : Nat) (text rest : List Byte) (bound : Nat) (st : State),
      q.nesting ≤ levels → q.nesting ≤ l.nestingDepth.val - d →
      Room o l (.behind text (q.text ++ s.closing.byte :: rest)) bound →
      Looks o l (.behind text (q.text ++ s.closing.byte :: rest)) d st →
      series o l s (value o l levels) bound st =
        .ok q.meaning ⟨.behind (text ++ (q.text ++ [s.closing.byte])) rest, none, d⟩

theorem exists_valueWith (o : Options) (l : Limits) (levels : Nat) :
    ∃ inner, value o l levels = valueWith o l inner := by
  cases levels with
  | zero => exact ⟨_, rfl⟩
  | succ levels => exact ⟨_, value_succ o l levels⟩

theorem readable_scalar {x : Scalar} (hx : x.Admitted o .paired) (hl : x.Within l) :
    Readable o l (.scalar x) := by
  intro levels d text front rest st _ _ hrest hst
  obtain ⟨inner, hinner⟩ := exists_valueWith o l levels
  rw [hinner]
  exact valueWith_scalar hst
    (Cursor.nextToken_lexeme (x := .scalar x) hx hl text front hrest)

theorem value_structured {inner : Structure} {levels d : Nat} (hd : d + 1 ≤ l.nestingDepth.val)
    (text : List Byte) (front : Gap) (rest : List Byte) {st : State}
    (hst : Looks o l (.behind text (front.bytes ++ inner.opening.byte :: rest)) d st) :
    value o l (levels + 1) st =
      interior o l inner.closing (inner.build [])
        (fun room => inner.build <$> series o l inner (value o l levels) room)
        ⟨.behind (text ++ (front.bytes ++ [inner.opening.byte])) rest, none, d + 1⟩ := by
  have hnext : Cursor.nextToken o l _ = _ := Cursor.nextToken_mark inner.opening text front rest
  rw [value_succ, valueWith_opening hst hnext]
  exact bracketed_ok (looks_some hnext d) hnext hd _ _ _

theorem readable_hollow (s : Structure) (gap : Gap) : Readable o l (.hollow s gap) := by
  intro levels d text front rest st hlevels hdepth _ hst
  obtain ⟨levels, rfl⟩ : ∃ n, levels = n + 1 := Nat.exists_eq_add_of_le' hlevels
  have hd : d + 1 ≤ l.nestingDepth.val := by
    simp only [Phrase.nesting] at hdepth
    omega
  have htext : front.bytes ++ ((Phrase.hollow s gap).text ++ rest) =
      front.bytes ++ s.opening.byte :: (gap.bytes ++ s.closing.byte :: rest) := by
    simp [Phrase.text]
  rw [htext] at hst
  rw [value_structured hd text front _ hst]
  have hnext : Cursor.nextToken o l _ = _ := Cursor.nextToken_mark s.closing
    (text ++ (front.bytes ++ [s.opening.byte])) gap rest
  rw [interior_closing (looks_none _ (d + 1)) hnext]
  simp [Phrase.value, Phrase.meaning, Phrase.text]

theorem readable_filled {s : Structure} {items : Phrase (.items s)} (h : Readable o l items)
    (hfirst : ∀ text rest, ∃ t c, Cursor.nextToken o l (.behind text
      (items.text ++ s.closing.byte :: rest)) = .ok t c ∧ t.kind ≠ .mark s.closing) :
    Readable o l (.filled s items) := by
  intro levels d text front rest st hlevels hdepth _ hst
  obtain ⟨levels, rfl⟩ := Nat.exists_eq_add_of_le' (Nat.le_of_add_left_le hlevels)
  simp only [Phrase.nesting] at hdepth hlevels
  have htext : front.bytes ++ ((Phrase.filled s items).text ++ rest) =
      front.bytes ++ s.opening.byte :: (items.text ++ s.closing.byte :: rest) := by
    simp [Phrase.text]
  rw [htext] at hst
  rw [value_structured (by omega) text front _ hst]
  obtain ⟨t, c, hnext, hkind⟩ := hfirst (text ++ (front.bytes ++ [s.opening.byte])) rest
  have hitems := h levels (d + 1) (text ++ (front.bytes ++ [s.opening.byte])) rest
    (c.rest.length + 1) ⟨c, some t, d + 1⟩ (by omega) (by omega)
    ⟨Nat.succ_pos _, fun t' c' h' => by rw [hnext] at h'; cases h'; exact Nat.lt_succ_self _⟩
    (looks_some hnext (d + 1))
  rw [interior_ok (looks_none _ (d + 1)) hnext hkind rfl (map_ok hitems)]
  simp [Phrase.value, Phrase.meaning, Phrase.text]

theorem series_item {s : Structure} {lead : Lead s} {p : Phrase .value} (hp : Readable o l p)
    (hlead : ∀ x ∈ lead.scalars, x.Admitted o .paired ∧ x.Within l)
    (hadmitted : p.Admitted o .paired) (hwithin : p.Within l) {levels d : Nat}
    (hlevels : p.nesting ≤ levels) (hdepth : p.nesting ≤ l.nestingDepth.val - d)
    (text : List Byte) (front back : Gap) (m : Mark) (rest : List Byte) {st : State}
    (hst : Looks o l (.behind text (lead.text ++ (front.bytes ++ (p.text ++
      (back.bytes ++ m.byte :: rest))))) d st) (bound : Nat) :
    ∃ offset, series o l s (value o l levels) (bound + 1) st =
      separated s (series o l s (value o l levels) bound) (s.entry lead.tag p.value)
        ⟨.mark m, offset⟩ ⟨.behind (text ++ (lead.text ++ (front.bytes ++ (p.text ++
          (back.bytes ++ [m.byte]))))) rest, none, d⟩ := by
  have hends := p.endsBefore_mark back m rest
  obtain ⟨st', hlead', hst'⟩ := leadOf_complete hlead hadmitted hwithin text front hends hst
  have hvalue := hp levels d (text ++ lead.text) front _ st' hlevels hdepth hends hst'
  have hnext : Cursor.nextToken o l _ = _ := Cursor.nextToken_mark m
    (text ++ lead.text ++ (front.bytes ++ p.text)) back rest
  have htext : text ++ lead.text ++ (front.bytes ++ p.text) ++ (back.bytes ++ [m.byte]) =
      text ++ (lead.text ++ (front.bytes ++ (p.text ++ (back.bytes ++ [m.byte])))) := by simp
  rw [htext] at hnext
  refine ⟨(text ++ lead.text ++ (front.bytes ++ p.text) ++ back.bytes).length, ?_⟩
  rw [series, bind_ok hlead', bind_ok hvalue, bind_ok (advance_ok (looks_none _ d) hnext)]

theorem room_of_length {text rest : List Byte} {bound : Nat} (h : rest.length < bound) :
    Room o l (.behind text rest) bound :=
  ⟨by omega, fun _ _ hnext => (Cursor.length_rest_le hnext).trans_lt h⟩

theorem room_more {s : Structure} {lead : Lead s} {p : Phrase .value}
    (hlead : ∀ x ∈ lead.scalars, x.Admitted o .paired ∧ x.Within l)
    (hadmitted : p.Admitted o .paired) (hwithin : p.Within l) (text text' : List Byte)
    (front back : Gap) (rest : List Byte) {bound : Nat}
    (h : Room o l (.behind text (lead.text ++ (front.bytes ++ (p.text ++
      (back.bytes ++ Mark.comma.byte :: rest))))) (bound + 1)) :
    Room o l (.behind text' rest) bound := by
  obtain ⟨offset, c, hnext, hlength⟩ := Cursor.nextToken_item hlead hadmitted hwithin text front
    (p.endsBefore_mark back .comma rest)
  have hlt := h.2 _ _ hnext
  simp only [List.length_append, List.length_cons] at hlength
  exact room_of_length (by omega)

theorem readable_last {s : Structure} {lead : Lead s} {p : Phrase .value} (front back : Gap)
    (hp : Readable o l p) (hlead : ∀ x ∈ lead.scalars, x.Admitted o .paired ∧ x.Within l)
    (hadmitted : p.Admitted o .paired) (hwithin : p.Within l) :
    Readable o l (.last lead front p back) := by
  intro levels d text rest bound st hlevels hdepth hroom hst
  have htext : (Phrase.last lead front p back).text ++ s.closing.byte :: rest =
      lead.text ++ (front.bytes ++ (p.text ++ (back.bytes ++ s.closing.byte :: rest))) := by
    simp [Phrase.text]
  rw [htext] at hst
  obtain ⟨bound, rfl⟩ : ∃ n, bound = n + 1 := Nat.exists_eq_add_of_le' hroom.1
  obtain ⟨offset, hstep⟩ := series_item hp hlead hadmitted hwithin hlevels hdepth text front back
    s.closing rest hst bound
  rw [hstep, separated, if_neg (by cases s <;> nofun), if_pos rfl]
  simp [Phrase.text, Phrase.meaning, Phrase.value, pure, EStateM.pure]

theorem readable_more {s : Structure} {lead : Lead s} {p : Phrase .value}
    {items : Phrase (.items s)} (front back : Gap) (hp : Readable o l p)
    (hitems : Readable o l items)
    (hlead : ∀ x ∈ lead.scalars, x.Admitted o .paired ∧ x.Within l)
    (hadmitted : p.Admitted o .paired) (hwithin : p.Within l) :
    Readable o l (.more lead front p back items) := by
  intro levels d text rest bound st hlevels hdepth hroom hst
  have htext : (Phrase.more lead front p back items).text ++ s.closing.byte :: rest =
      lead.text ++ (front.bytes ++ (p.text ++ (back.bytes ++
        Mark.comma.byte :: (items.text ++ s.closing.byte :: rest)))) := by
    simp [Phrase.text]
  rw [htext] at hst hroom
  simp only [Phrase.nesting, Nat.max_le] at hlevels hdepth
  obtain ⟨bound, rfl⟩ : ∃ n, bound = n + 1 := Nat.exists_eq_add_of_le' hroom.1
  obtain ⟨offset, hstep⟩ := series_item hp hlead hadmitted hwithin hlevels.1 hdepth.1 text front
    back .comma _ hst bound
  have hmore := hitems levels d
    (text ++ (lead.text ++ (front.bytes ++ (p.text ++ (back.bytes ++ [Mark.comma.byte]))))) rest
    bound _ hlevels.2 hdepth.2 (room_more hlead hadmitted hwithin text _ front back _ hroom)
    (looks_none _ d)
  rw [hstep, separated, if_pos rfl, bind_ok hmore]
  simp [Phrase.text, Phrase.meaning, Phrase.value, pure, EStateM.pure]

theorem exists_nextToken_items {s : Structure} {items : Phrase (.items s)}
    (hadmitted : items.Admitted o .paired) (hwithin : items.Within l) (text rest : List Byte) :
    ∃ t c, Cursor.nextToken o l (.behind text (items.text ++ s.closing.byte :: rest)) = .ok t c ∧
      t.kind ≠ .mark s.closing := by
  match items with
  | .last lead front p back =>
    obtain ⟨hlead, hp⟩ := List.forall_mem_append.1 hadmitted
    obtain ⟨hlead', hp'⟩ := List.forall_mem_append.1 hwithin
    obtain ⟨offset, c, hnext, -⟩ := Cursor.nextToken_item
      (fun x hx => ⟨hlead x hx, hlead' x hx⟩) hp hp' text front
      (p.endsBefore_mark back s.closing rest)
    refine ⟨⟨(lead.first p.first).kind, offset⟩, c, ?_, lead.first_ne_closing p⟩
    simpa [Phrase.text] using hnext
  | .more lead front p back items =>
    obtain ⟨hlead, hmore⟩ := List.forall_mem_append.1 hadmitted
    obtain ⟨hlead', hmore'⟩ := List.forall_mem_append.1 hwithin
    obtain ⟨offset, c, hnext, -⟩ := Cursor.nextToken_item
      (fun x hx => ⟨hlead x hx, hlead' x hx⟩) (List.forall_mem_append.1 hmore).1
      (List.forall_mem_append.1 hmore').1 text front
      (p.endsBefore_mark back .comma (items.text ++ s.closing.byte :: rest))
    refine ⟨⟨(lead.first p.first).kind, offset⟩, c, ?_, lead.first_ne_closing p⟩
    simpa [Phrase.text] using hnext

theorem readable {c : Category} {p : Phrase c} (hadmitted : p.Admitted o .paired)
    (hwithin : p.Within l) : Readable o l p := by
  induction p with
  | scalar x =>
    exact readable_scalar (hadmitted x List.mem_cons_self) (hwithin x List.mem_cons_self)
  | hollow s gap => exact readable_hollow s gap
  | filled s items ih =>
    exact readable_filled (ih hadmitted hwithin) (exists_nextToken_items hadmitted hwithin)
  | last lead front p back ih =>
    obtain ⟨hlead, hp⟩ := List.forall_mem_append.1 hadmitted
    obtain ⟨hlead', hp'⟩ := List.forall_mem_append.1 hwithin
    exact readable_last front back (ih hp hp') (fun x hx => ⟨hlead x hx, hlead' x hx⟩) hp hp'
  | more lead front p back items ih ihitems =>
    obtain ⟨hlead, hmore⟩ := List.forall_mem_append.1 hadmitted
    obtain ⟨hlead', hmore'⟩ := List.forall_mem_append.1 hwithin
    obtain ⟨hp, hitems⟩ := List.forall_mem_append.1 hmore
    obtain ⟨hp', hitems'⟩ := List.forall_mem_append.1 hmore'
    exact readable_more front back (ih hp hp') (ihitems hitems hitems')
      (fun x hx => ⟨hlead x hx, hlead' x hx⟩) hp hp'

end Parser

end LocatedJson
