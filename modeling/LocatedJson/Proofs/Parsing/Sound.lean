import LocatedJson.Proofs.Grammar.Context
import LocatedJson.Proofs.Parsing.Complete

/-! What the parser reads is a phrase, and where it fails it stands between two tokens of a
broken-off document, at one that cannot be read or is not due there. -/
namespace LocatedJson

open Grammar

namespace Grammar.Place

/-- The text is broken off here, with the rest not read yet. -/
structure Reached (place : Place) (o : Options) (text rest : List Byte) : Prop where
  admitted : place.Admitted o .paired
  ends : place.EndsBefore rest
  text_eq : text = place.text ++ rest

end Grammar.Place

namespace Parser

/-- The ways to fail, by the place and what stands there. Nesting is refused before levels are
used up unless the limit exceeds their number. -/
inductive Refused (o : Options) (l : Limits) (levels : Nat) (text : List Byte) :
    Failure → Prop where
  | lexeme {place : Place} {rest : List Byte} {f : Fault} (h : place.Reached o text rest)
      (hf : Token.Kind.RefusedWith o l rest f) :
      Refused o l levels text ⟨f.cause, place.text.length + f.offset⟩
  | token {place : Place} {x : Lexeme} {rest : List Byte} (wanted : Wanted)
      (h : place.Reached o text (x.text ++ rest)) (hx : ¬ place.Expects x) :
      Refused o l levels text ⟨.unexpectedToken wanted x.kind, place.text.length⟩
  | ending {place : Place} {cause : Cause} (h : place.Reached o text [])
      (hcause : cause = .missingValue ∨ ∃ s, cause = .unterminated s) :
      Refused o l levels text ⟨cause, place.text.length⟩
  | deep {k : Context .value} {gap : Gap} {s : Structure} {rest : List Byte} {n : Nat}
      (h : (Place.value k gap).Reached o text (s.opening.byte :: rest))
      (hn : l.nestingDepth.val < n) :
      Refused o l levels text
        ⟨.limitExceeded .nestingDepth n l.nestingDepth.val, (Place.value k gap).text.length⟩
  | exhausted {k : Context .value} {gap : Gap} {s : Structure} {rest : List Byte} (n : Nat)
      (h : (Place.value k gap).Reached o text (s.opening.byte :: rest))
      (hlevels : levels < l.nestingDepth.val) :
      Refused o l levels text ⟨.recursionExhausted n, (Place.value k gap).text.length + 1⟩

variable (o : Options) (l : Limits)

/-- The state behind a value. -/
def ValueRead (d : Nat) (text bytes : List Byte) (v : Value) (st : State) : Prop :=
  ∃ (front : Gap) (p : Phrase .value) (rest : List Byte),
    bytes = front.bytes ++ (p.text ++ rest) ∧ p.Admitted o .paired ∧ p.Within l ∧
    p.EndsBefore rest ∧ p.nesting ≤ l.nestingDepth.val - d ∧ p.value = v ∧
    st = ⟨.behind (text ++ (front.bytes ++ p.text)) rest, none, d⟩

def ItemsRead (s : Structure) (d : Nat) (text bytes : List Byte) (entries : List s.Entry)
    (st : State) : Prop :=
  ∃ (q : Phrase (.items s)) (rest : List Byte), bytes = q.text ++ s.closing.byte :: rest ∧
    q.Admitted o .paired ∧ q.Within l ∧ q.nesting ≤ l.nestingDepth.val - d ∧
    q.meaning = entries ∧ st = ⟨.behind (text ++ (q.text ++ [s.closing.byte])) rest, none, d⟩

/-- Where an empty structure might be closed, another token stands. -/
def Unclosed {c : Category} (k : Context c) (bytes : List Byte) : Prop :=
  ∀ s, k.closes = some s → ∀ t c, Cursor.nextToken o l (.behind k.text bytes) = .ok t c →
    t.kind ≠ .mark s.closing

def LeadRead {s : Structure} (d : Nat) (k : Context (.items s)) (bytes : List Byte) (tag : s.Tag)
    (st : State) : Prop :=
  ∃ (lead : Lead s) (rest : List Byte), bytes = lead.text ++ rest ∧
    (∀ x ∈ lead.scalars, x.Admitted o .paired ∧ x.Within l) ∧ lead.tag = tag ∧
    Unclosed o l (k.entry lead) rest ∧ Looks o l (.behind (k.entry lead).text rest) d st

def ReadsValues (levels d : Nat) (item : ParserM Value) : Prop :=
  ∀ (k : Context .value) (bytes : List Byte) (st : State), k.Admitted o .paired →
    Unclosed o l k bytes → Looks o l (.behind k.text bytes) d st →
    Gives (item st) (ValueRead o l d k.text bytes) (Refused o l levels (k.text ++ bytes))

variable {o l} {levels d : Nat} {s : Structure} {st : State}

theorem gives_fail {α : Type} {good : α → State → Prop} {bad : Failure → Prop} {cause : Cause}
    {offset : Nat} (h : bad ⟨cause, offset⟩) : Gives (fail cause offset st) good bad := h

theorem gives_unexpected {α : Type} {good : α → State → Prop} {bad : Failure → Prop} {x : Lexeme}
    {offset : Nat} {wanted : Wanted} (h : bad ⟨.unexpectedToken wanted x.kind, offset⟩) :
    Gives (unexpected ⟨x.kind, offset⟩ wanted s st) good bad := by
  match x with
  | .mark m => exact h
  | .scalar (.word (.bool _)) => exact h
  | .scalar (.word .null) => exact h
  | .scalar (.special _) => exact h
  | .scalar (.decimal _) => exact h
  | .scalar (.string _) => exact h

theorem kind_eq_mark {x : Lexeme} {m : Mark} (h : x.kind = .mark m) : x = .mark m := by
  match x with
  | .mark m' => exact congrArg Lexeme.mark (Token.Kind.mark.inj h)
  | .scalar (.word (.bool _)) => cases h
  | .scalar (.word .null) => cases h
  | .scalar (.special _) => cases h
  | .scalar (.decimal _) => cases h
  | .scalar (.string _) => cases h

theorem kind_ne_eof (x : Lexeme) : x.kind ≠ .eof := by
  match x with
  | .mark m => nofun
  | .scalar (.word (.bool _)) => nofun
  | .scalar (.word .null) => nofun
  | .scalar (.special _) => nofun
  | .scalar (.decimal _) => nofun
  | .scalar (.string _) => nofun

section Ahead

variable {α : Type} {f : Token → ParserM α} {good : α → State → Prop} {bad : Failure → Prop}
  {text bytes : List Byte}

/-- To look at the token ahead is to meet the end, a lexeme or a fault. -/
theorem current_bind (hst : Looks o l (.behind text bytes) d st)
    (heof : ∀ (gap : Gap) (st' : State), bytes = gap.bytes → Looks o l (.behind text bytes) d st' →
      Gives (f ⟨.eof, (text ++ gap.bytes).length⟩ st') good bad)
    (hlexeme : ∀ (gap : Gap) (x : Lexeme) (rest : List Byte) (st' : State),
      bytes = gap.bytes ++ (x.text ++ rest) → x.Admitted o .paired → x.Within l →
      x.EndsBefore rest → Looks o l (.behind text bytes) d st' →
      Gives (f ⟨x.kind, (text ++ gap.bytes).length⟩ st') good bad)
    (hrefused : ∀ (gap : Gap) (rest : List Byte) (fault : Fault), bytes = gap.bytes ++ rest →
      Token.Kind.RefusedWith o l rest fault →
      bad ⟨fault.cause, (text ++ gap.bytes).length + fault.offset⟩) :
    Gives ((current o l >>= f) st) good bad := by
  have hpulls := Cursor.nextToken_pulls o l text bytes
  cases hnext : Cursor.nextToken o l (.behind text bytes) with
  | ok t c =>
    rw [bind_ok (current_ok hst hnext)]
    rw [hnext] at hpulls
    cases hpulls with
    | eof gap hbytes => exact heof gap _ hbytes (looks_some hnext d)
    | lexeme gap x rest hbytes hx hl hrest =>
      exact hlexeme gap x rest _ hbytes hx hl hrest (looks_some hnext d)
  | error failure c =>
    rw [bind_error (current_error hst hnext)]
    rw [hnext] at hpulls
    cases hpulls with
    | refused gap rest fault _ hbytes hf => exact hrefused gap rest fault hbytes hf

theorem advance_bind (hst : Looks o l (.behind text bytes) d st)
    (heof : ∀ (gap : Gap) (st' : State), bytes = gap.bytes →
      Gives (f ⟨.eof, (text ++ gap.bytes).length⟩ st') good bad)
    (hlexeme : ∀ (gap : Gap) (x : Lexeme) (rest : List Byte),
      bytes = gap.bytes ++ (x.text ++ rest) → x.Admitted o .paired → x.Within l →
      x.EndsBefore rest →
      Gives (f ⟨x.kind, (text ++ gap.bytes).length⟩
        ⟨.behind (text ++ (gap.bytes ++ x.text)) rest, none, d⟩) good bad)
    (hrefused : ∀ (gap : Gap) (rest : List Byte) (fault : Fault), bytes = gap.bytes ++ rest →
      Token.Kind.RefusedWith o l rest fault →
      bad ⟨fault.cause, (text ++ gap.bytes).length + fault.offset⟩) :
    Gives ((advance o l >>= f) st) good bad := by
  have hpulls := Cursor.nextToken_pulls o l text bytes
  cases hnext : Cursor.nextToken o l (.behind text bytes) with
  | ok t c =>
    rw [bind_ok (advance_ok hst hnext)]
    rw [hnext] at hpulls
    cases hpulls with
    | eof gap hbytes => exact heof gap _ hbytes
    | lexeme gap x rest hbytes hx hl hrest => exact hlexeme gap x rest hbytes hx hl hrest
  | error failure c =>
    rw [bind_error (advance_error hst hnext)]
    rw [hnext] at hpulls
    cases hpulls with
    | refused gap rest fault _ hbytes hf => exact hrefused gap rest fault hbytes hf

end Ahead

theorem elementAhead_gives {k : Context (.items .array)} (hk : k.Admitted o .paired)
    {bytes : List Byte} (hclose : Unclosed o l k bytes)
    (hst : Looks o l (.behind k.text bytes) d st) :
    Gives (elementAhead o l st) (LeadRead o l d k bytes)
      (Refused o l levels (k.text ++ bytes)) := by
  have hentry : (k.entry .element).Admitted o .paired := by
    rwa [Context.Admitted, Context.scalars, Lead.scalars, List.append_nil]
  have htext : (k.entry .element).text = k.text := List.append_nil _
  have hplace (gap : Gap) : (Place.value (k.entry .element) gap).text = k.text ++ gap.bytes := by
    rw [Place.text, htext]
  have reached (gap : Gap) {rest : List Byte} (hbytes : bytes = gap.bytes ++ rest) :
      (Place.value (k.entry .element) gap).Reached o (k.text ++ bytes) rest :=
    ⟨hentry, trivial, by rw [hbytes, hplace, List.append_assoc]⟩
  apply current_bind hst
  · intro gap st' hbytes hst'
    rw [if_pos rfl]
    refine gives_fail ?_
    dsimp only
    rw [← hplace]
    exact .ending (reached gap (by rw [hbytes, List.append_nil])) (.inr ⟨.array, rfl⟩)
  · intro gap x rest st' hbytes hx hl hrest hst'
    rw [if_neg (kind_ne_eof x)]
    refine ⟨.element, bytes, rfl, by simp [Lead.scalars], rfl, ?_, ?_⟩
    · rw [Unclosed, htext]
      exact hclose
    · rw [htext]
      exact hst'
  · intro gap rest fault hbytes hf
    rw [← hplace]
    exact .lexeme (reached gap hbytes) hf

theorem colonBehind_gives {k : Context (.items .object)} (hk : k.Admitted o .paired) {q : Quoted}
    (hq : q.Admitted o .paired) (hl : (Scalar.string q).Within l) {gap : Gap} {rest : List Byte}
    (hst : Looks o l (.behind k.text (gap.bytes ++ (q.text ++ rest))) d st) :
    Gives ((do
        discard (advance o l)
        let colon ← current o l
        if colon.kind = .mark .colon then
          discard (advance o l)
          return q.string
        else unexpected colon .colon .object : ParserM String) st)
      (LeadRead o l d k (gap.bytes ++ (q.text ++ rest)))
      (Refused o l levels (k.text ++ (gap.bytes ++ (q.text ++ rest)))) := by
  have hadmitted (back : Gap) : (Place.colon k gap q back).Admitted o .paired :=
    List.forall_mem_append.2 ⟨hk, List.forall_mem_singleton.2 hq⟩
  have hplace (back : Gap) : (Place.colon k gap q back).text =
      k.text ++ (gap.bytes ++ q.text) ++ back.bytes := by simp [Place.text]
  have reached (back : Gap) {more : List Byte} (hrest : rest = back.bytes ++ more) :
      (Place.colon k gap q back).Reached o (k.text ++ (gap.bytes ++ (q.text ++ rest))) more :=
    ⟨hadmitted back, trivial, by rw [hrest, hplace]; simp⟩
  have hnext := Cursor.nextToken_string hq hl k.text gap rest
  rw [bind_ok (discard_ok (advance_ok hst hnext))]
  apply current_bind (looks_none _ d)
  · intro back st' hrest hst'
    refine gives_fail ?_
    dsimp only
    rw [← hplace]
    exact .ending (reached back (by rw [hrest, List.append_nil])) (.inr ⟨.object, rfl⟩)
  · intro back x more st' hrest hx hlx hmore hst'
    by_cases hcolon : x.kind = .mark .colon
    · obtain rfl := kind_eq_mark hcolon
      subst hrest
      have hnext' : Cursor.nextToken o l _ = _ :=
        Cursor.nextToken_mark .colon (k.text ++ (gap.bytes ++ q.text)) back more
      rw [if_pos hcolon, bind_ok (discard_ok (advance_ok hst' hnext'))]
      refine ⟨.member gap q back, more, by simp [Lead.text, Lexeme.text],
        by simpa [Lead.scalars] using ⟨hq, hl⟩, rfl, by rintro _ ⟨⟩, ?_⟩
      simp only [Context.text, Lead.text, List.append_assoc]
      exact looks_none _ d
    · rw [if_neg hcolon]
      refine gives_unexpected ?_
      rw [← hplace]
      exact .token .colon (reached back hrest) fun h => hcolon (congrArg Lexeme.kind h)
  · intro back more fault hrest hf
    rw [← hplace]
    exact .lexeme (reached back hrest) hf

theorem memberKey_gives {k : Context (.items .object)} (hk : k.Admitted o .paired)
    {bytes : List Byte} (hclose : Unclosed o l k bytes)
    (hst : Looks o l (.behind k.text bytes) d st) :
    Gives (memberKey o l st) (LeadRead o l d k bytes) (Refused o l levels (k.text ++ bytes)) := by
  have reached (gap : Gap) {rest : List Byte} (hbytes : bytes = gap.bytes ++ rest) :
      (Place.key k gap).Reached o (k.text ++ bytes) rest :=
    ⟨hk, trivial, by rw [hbytes, Place.text, List.append_assoc]⟩
  apply current_bind hst
  · intro gap st' hbytes hst'
    refine gives_fail ?_
    exact .ending (reached gap (by rw [hbytes, List.append_nil])) (.inr ⟨.object, rfl⟩)
  · intro gap x rest st' hbytes hx hl hrest hst'
    by_cases hstring : ∃ q, x = .scalar (.string q)
    · obtain ⟨q, rfl⟩ := hstring
      subst hbytes
      exact colonBehind_gives hk hx hl hst'
    · have hnext := Cursor.nextToken_lexeme hx hl k.text gap hrest
      have hnot : ¬ (Place.key k gap).Expects x := by
        rintro (hq | ⟨s, hs, rfl⟩)
        · exact hstring hq
        · subst hbytes
          exact hclose s hs _ _ hnext rfl
      have hrefused : Refused o l levels (k.text ++ bytes)
          ⟨.unexpectedToken .key x.kind, (k.text ++ gap.bytes).length⟩ :=
        .token .key (reached gap hbytes) hnot
      cases x with
      | mark m => exact hrefused
      | scalar x =>
        cases x with
        | word w => cases w <;> exact hrefused
        | special n => exact hrefused
        | decimal n => exact hrefused
        | string q => exact absurd ⟨q, rfl⟩ hstring
  · intro gap rest fault hbytes hf
    exact .lexeme (reached gap hbytes) hf

theorem leadOf_gives {k : Context (.items s)} (hk : k.Admitted o .paired) {bytes : List Byte}
    (hclose : Unclosed o l k bytes) (hst : Looks o l (.behind k.text bytes) d st) :
    Gives (leadOf o l s st) (LeadRead o l d k bytes) (Refused o l levels (k.text ++ bytes)) := by
  cases s with
  | array => exact elementAhead_gives hk hclose hst
  | object => exact memberKey_gives hk hclose hst

section Items

variable {k : Context (.items s)} {lead : Lead s} {front back : Gap} {p : Phrase .value}

theorem ItemsRead.last (hlead : ∀ x ∈ lead.scalars, x.Admitted o .paired ∧ x.Within l)
    (hp : p.Admitted o .paired) (hl : p.Within l) (hnesting : p.nesting ≤ l.nestingDepth.val - d)
    (back : Gap) (more : List Byte) :
    ItemsRead o l s d k.text
      (lead.text ++ (front.bytes ++ (p.text ++ (back.bytes ++ s.closing.byte :: more))))
      [s.entry lead.tag p.value]
      ⟨.behind ((k.entry lead).text ++ (front.bytes ++ p.text) ++ (back.bytes ++ [s.closing.byte]))
        more, none, d⟩ := by
  refine ⟨.last lead front p back, more, by simp [Phrase.text], ?_, ?_, hnesting, rfl, ?_⟩
  · exact List.forall_mem_append.2 ⟨fun x hx => (hlead x hx).1, hp⟩
  · exact List.forall_mem_append.2 ⟨fun x hx => (hlead x hx).2, hl⟩
  · simp [Context.text, Phrase.text]

/-- An item and a comma before the others. -/
theorem ItemsRead.behind_comma {rest : List Byte} {entries : List s.Entry}
    (h : ItemsRead o l s d (k.next lead front p back).text rest entries st)
    (hlead : ∀ x ∈ lead.scalars, x.Admitted o .paired ∧ x.Within l)
    (hp : p.Admitted o .paired) (hl : p.Within l) (hnesting : p.nesting ≤ l.nestingDepth.val - d) :
    ItemsRead o l s d k.text
      (lead.text ++ (front.bytes ++ (p.text ++ (back.bytes ++ Mark.comma.byte :: rest))))
      (s.entry lead.tag p.value :: entries) st := by
  obtain ⟨q, tail, rfl, hq, hlq, hnq, rfl, rfl⟩ := h
  refine ⟨.more lead front p back q, tail, by simp [Phrase.text], ?_, ?_,
    Nat.max_le.2 ⟨hnesting, hnq⟩, rfl, by simp [Context.text, Phrase.text]⟩
  · exact List.forall_mem_append.2 ⟨fun x hx => (hlead x hx).1, List.forall_mem_append.2 ⟨hp, hq⟩⟩
  · exact List.forall_mem_append.2 ⟨fun x hx => (hlead x hx).2, List.forall_mem_append.2 ⟨hl, hlq⟩⟩

end Items

/-- The loop, by induction on the bound, which is never used up. -/
theorem series_gives {item : ParserM Value} (hitem : ReadsValues o l levels d item) {bound : Nat}
    {k : Context (.items s)} (hk : k.Admitted o .paired) {bytes : List Byte}
    (hclose : Unclosed o l k bytes) (hroom : Room o l (.behind k.text bytes) bound)
    (hst : Looks o l (.behind k.text bytes) d st) :
    Gives (series o l s item bound st) (ItemsRead o l s d k.text bytes)
      (Refused o l levels (k.text ++ bytes)) := by
  induction bound generalizing k bytes st with
  | zero => exact absurd hroom.1 (Nat.lt_irrefl 0)
  | succ bound ih =>
    refine (leadOf_gives hk hclose hst).bind ?_
    rintro _ st₁ ⟨lead, rest, rfl, hlead, rfl, hclose₁, hst₁⟩
    have hentry : (k.entry lead).Admitted o .paired :=
      List.forall_mem_append.2 ⟨hk, fun x hx => (hlead x hx).1⟩
    have hvalue := hitem (k.entry lead) rest st₁ hentry hclose₁ hst₁
    have htext : (k.entry lead).text ++ rest = k.text ++ (lead.text ++ rest) := by
      simp [Context.text]
    rw [htext] at hvalue
    refine hvalue.bind ?_
    rintro _ st₂ ⟨front, p, rest, rfl, hp, hl, hends, hnesting, rfl, rfl⟩
    have hplace (back : Gap) : (Place.after (k.entry lead) front p back).text =
        (k.entry lead).text ++ (front.bytes ++ p.text) ++ back.bytes := by simp [Place.text]
    have reached (back : Gap) {more : List Byte} (hrest : rest = back.bytes ++ more) :
        (Place.after (k.entry lead) front p back).Reached o
          (k.text ++ (lead.text ++ (front.bytes ++ (p.text ++ rest)))) more :=
      ⟨List.forall_mem_append.2 ⟨hentry, hp⟩, by rw [hrest] at hends; exact hends,
        by rw [hrest, hplace]; simp [Context.text]⟩
    apply advance_bind (looks_none _ d)
    · intro back st₃ hrest
      refine gives_fail ?_
      dsimp only
      rw [← hplace]
      exact .ending (reached back (by rw [hrest, List.append_nil])) (.inr ⟨s, rfl⟩)
    · intro back x more hrest hx hlx hmore
      unfold separated
      by_cases hcomma : x.kind = .mark .comma
      · obtain rfl := kind_eq_mark hcomma
        subst hrest
        have hk' : (k.next lead front p back).Admitted o .paired :=
          List.forall_mem_append.2 ⟨hk, List.forall_mem_append.2 ⟨fun x hx => (hlead x hx).1, hp⟩⟩
        have hbehind : (k.entry lead).text ++ (front.bytes ++ p.text) ++
            (back.bytes ++ (Lexeme.mark .comma).text) = (k.next lead front p back).text := by
          simp [Context.text, Lexeme.text]
        have hall : k.text ++ (lead.text ++ (front.bytes ++ (p.text ++ (back.bytes ++
            ((Lexeme.mark .comma).text ++ more))))) = (k.next lead front p back).text ++ more := by
          simp [Context.text, Lexeme.text]
        have hmore := ih hk' (by rintro _ ⟨⟩) (room_more hlead hp hl k.text _ front back more hroom)
          (looks_none _ d)
        rw [if_pos hcomma, hbehind, hall]
        refine hmore.bind ?_
        intro entries st₃ hread
        exact ItemsRead.behind_comma hread hlead hp hl hnesting
      · rw [if_neg hcomma]
        by_cases hclosing : x.kind = .mark s.closing
        · obtain rfl := kind_eq_mark hclosing
          subst hrest
          rw [if_pos hclosing]
          exact .last hlead hp hl hnesting back more
        · rw [if_neg hclosing]
          refine gives_unexpected ?_
          rw [← hplace]
          refine .token (separatorOf s) (reached back hrest) ?_
          rintro ⟨s', hs', rfl | rfl⟩
          · exact hcomma rfl
          · cases hs'
            exact hclosing rfl
    · intro back more fault hrest hf
      rw [← hplace]
      exact .lexeme (reached back hrest) hf

theorem exists_place (k : Context (.items s)) (gap : Gap) :
    ∃ place : Place, place.text = k.text ++ gap.bytes ∧ place.scalars = k.scalars ∧
      ∀ rest, place.EndsBefore rest := by
  cases s with
  | array =>
    exact ⟨.value (k.entry .element) gap, by simp [Place.text, Context.text, Lead.text],
      by simp [Place.scalars, Context.scalars, Lead.scalars], fun _ => trivial⟩
  | object => exact ⟨.key k gap, rfl, rfl, fun _ => trivial⟩

theorem interior_gives {item : ParserM Value} (hitem : ReadsValues o l levels (d + 1) item)
    {k : Context .value} (hk : k.Admitted o .paired) (gap : Gap) (bytes : List Byte)
    (hd : d + 1 ≤ l.nestingDepth.val) :
    Gives (interior o l s.closing (s.build []) (fun room => s.build <$> series o l s item room)
        ⟨.behind (k.inside gap s).text bytes, none, d + 1⟩)
      (ValueRead o l d k.text (gap.bytes ++ s.opening.byte :: bytes))
      (Refused o l levels ((k.inside gap s).text ++ bytes)) := by
  have hpulls := Cursor.nextToken_pulls o l (k.inside gap s).text bytes
  cases hnext : Cursor.nextToken o l (.behind (k.inside gap s).text bytes) with
  | error failure c =>
    unfold interior
    rw [bind_error (current_error (looks_none _ _) hnext)]
    rw [hnext] at hpulls
    cases hpulls with
    | refused front rest fault _ hbytes hf =>
      obtain ⟨place, htext, hscalars, hends⟩ := exists_place (k.inside gap s) front
      rw [← htext]
      have reached : place.Reached o ((k.inside gap s).text ++ bytes) rest := by
        refine ⟨?_, hends rest, by rw [htext, hbytes, List.append_assoc]⟩
        rw [Place.Admitted, hscalars]
        exact hk
      exact .lexeme reached hf
  | ok t c =>
    by_cases hkind : t.kind = .mark s.closing
    · rw [hnext] at hpulls
      cases hpulls with
      | eof => cases hkind
      | lexeme inner x rest hbytes hx hl hrest =>
        obtain rfl := kind_eq_mark hkind
        rw [interior_closing (looks_none _ _) hnext]
        refine ⟨gap, .hollow s inner, rest, by simp [hbytes, Phrase.text, Lexeme.text], nofun,
          nofun, trivial, ?_, rfl, by simp [Context.text, Phrase.text, Lexeme.text]⟩
        simp only [Phrase.nesting]
        omega
    · have hroom : Room o l (.behind (k.inside gap s).text bytes) (c.rest.length + 1) := by
        refine ⟨Nat.succ_pos _, fun t' c' h' => ?_⟩
        rw [hnext] at h'
        cases h'
        exact Nat.lt_succ_self _
      have hclose : Unclosed o l (k.inside gap s) bytes := by
        rintro s' ⟨⟩ t' c' h'
        rw [hnext] at h'
        cases h'
        exact hkind
      have hseries := series_gives hitem (k := k.inside gap s) hk hclose hroom
        (looks_some hnext (d + 1))
      have hahead : roomAhead ⟨c, some t, d + 1⟩ =
          .ok (c.rest.length + 1) ⟨c, some t, d + 1⟩ := rfl
      unfold interior
      rw [bind_ok (current_ok (looks_none _ _) hnext), if_neg hkind, bind_ok hahead]
      refine hseries.map.bind ?_
      rintro _ st' ⟨_, rfl, q, rest, rfl, hq, hl, hnesting, rfl, rfl⟩
      refine ⟨gap, .filled s q, rest, by simp [Phrase.text], hq, hl, trivial, ?_, rfl, ?_⟩
      · simp only [Phrase.nesting]
        omega
      · simp [Context.text, Phrase.text]

theorem valueWith_gives {inner : Structure → ParserM Value} {k : Context .value}
    (hk : k.Admitted o .paired) {bytes : List Byte} (hclose : Unclosed o l k bytes)
    (hst : Looks o l (.behind k.text bytes) d st)
    (hinner : ∀ (s : Structure) (gap : Gap) (rest : List Byte) (st' : State),
      bytes = gap.bytes ++ s.opening.byte :: rest → Looks o l (.behind k.text bytes) d st' →
      Gives (inner s st') (ValueRead o l d k.text bytes) (Refused o l levels (k.text ++ bytes))) :
    Gives (valueWith o l inner st) (ValueRead o l d k.text bytes)
      (Refused o l levels (k.text ++ bytes)) := by
  have reached (gap : Gap) {rest : List Byte} (hbytes : bytes = gap.bytes ++ rest) :
      (Place.value k gap).Reached o (k.text ++ bytes) rest :=
    ⟨hk, trivial, by rw [hbytes, Place.text, List.append_assoc]⟩
  have hpulls := Cursor.nextToken_pulls o l k.text bytes
  generalize hnext : Cursor.nextToken o l (.behind k.text bytes) = r at hpulls
  cases hpulls with
  | eof gap hbytes =>
    rw [valueWith_eof hst hnext]
    exact .ending (reached gap (by rw [hbytes, List.append_nil])) (.inl rfl)
  | refused gap rest fault c hbytes hf =>
    unfold valueWith
    rw [bind_error (current_error hst hnext)]
    exact .lexeme (reached gap hbytes) hf
  | lexeme gap x rest hbytes hx hl hrest =>
    cases x with
    | scalar x =>
      rw [valueWith_scalar hst hnext]
      exact ⟨gap, .scalar x, rest, hbytes, List.forall_mem_singleton.2 hx,
        List.forall_mem_singleton.2 hl, hrest, Nat.zero_le _, rfl, rfl⟩
    | mark m =>
      by_cases hopening : ∃ s : Structure, m = s.opening
      · obtain ⟨s, rfl⟩ := hopening
        rw [valueWith_opening hst hnext]
        exact hinner s gap rest _ hbytes (looks_some hnext d)
      · rw [valueWith_mark hst (fun s hs => hopening ⟨s, hs⟩) hnext]
        refine .token (x := .mark m) .value (reached gap hbytes) ?_
        rintro (⟨x, hx⟩ | ⟨s, hs⟩ | ⟨s, hs, hm⟩)
        · cases hx
        · exact hopening ⟨s, Lexeme.mark.inj hs⟩
        · exact hclose s hs _ _ hnext (congrArg Lexeme.kind hm)

theorem exhausted_gives {k : Context .value} (hk : k.Admitted o .paired) {gap : Gap}
    {rest : List Byte}
    (hst : Looks o l (.behind k.text (gap.bytes ++ s.opening.byte :: rest)) d st) :
    Gives (exhausted o l st)
      (ValueRead o l d k.text (gap.bytes ++ s.opening.byte :: rest))
      (Refused o l d (k.text ++ (gap.bytes ++ s.opening.byte :: rest))) := by
  have reached : (Place.value k gap).Reached o (k.text ++ (gap.bytes ++ s.opening.byte :: rest))
      (s.opening.byte :: rest) := ⟨hk, trivial, by simp [Place.text]⟩
  have hnext : Cursor.nextToken o l _ = _ := Cursor.nextToken_mark s.opening k.text gap rest
  unfold exhausted
  rw [bind_ok (advance_ok hst hnext)]
  by_cases hd : d + 1 ≤ l.nestingDepth.val
  · rw [bind_ok (enter_ok hd _)]
    have hoffset : (Place.value k gap).text.length + 1 =
        (k.text ++ (gap.bytes ++ [s.opening.byte])).length := by
      simp [Place.text]
      omega
    have hrefused := Refused.exhausted (l := l) (d + 1) reached (Nat.lt_of_succ_le hd)
    rw [hoffset] at hrefused
    exact hrefused
  · rw [bind_error (enter_error (Nat.lt_of_not_le hd) _)]
    exact .deep reached (Nat.lt_of_not_le hd)

theorem structured_gives {item : ParserM Value} (hitem : ReadsValues o l levels (d + 1) item)
    {k : Context .value} (hk : k.Admitted o .paired) {gap : Gap} {rest : List Byte}
    (hst : Looks o l (.behind k.text (gap.bytes ++ s.opening.byte :: rest)) d st) :
    Gives (structured o l s item st)
      (ValueRead o l d k.text (gap.bytes ++ s.opening.byte :: rest))
      (Refused o l levels (k.text ++ (gap.bytes ++ s.opening.byte :: rest))) := by
  have hnext : Cursor.nextToken o l _ = _ := Cursor.nextToken_mark s.opening k.text gap rest
  unfold structured
  by_cases hd : d + 1 ≤ l.nestingDepth.val
  · rw [bracketed_ok hst hnext hd]
    have hinside := interior_gives (s := s) hitem hk gap rest hd
    have htext : (k.inside gap s).text ++ rest =
        k.text ++ (gap.bytes ++ s.opening.byte :: rest) := by
      simp [Context.text]
    rw [htext] at hinside
    exact hinside
  · rw [bracketed_error hst hnext (Nat.lt_of_not_le hd)]
    have reached : (Place.value k gap).Reached o (k.text ++ (gap.bytes ++ s.opening.byte :: rest))
        (s.opening.byte :: rest) := ⟨hk, trivial, by simp [Place.text]⟩
    exact .deep reached (Nat.lt_of_not_le hd)

/-- A value is read or refused, by induction on the levels left. -/
theorem value_gives (o : Options) (l : Limits) (n d : Nat) :
    ReadsValues o l (n + d) d (value o l n) := by
  induction n generalizing d with
  | zero =>
    intro k bytes st hk hclose hst
    refine valueWith_gives hk hclose hst ?_
    rintro s gap rest st' rfl hst'
    rw [Nat.zero_add]
    exact exhausted_gives hk hst'
  | succ n ih =>
    intro k bytes st hk hclose hst
    rw [value_succ]
    refine valueWith_gives hk hclose hst ?_
    rintro s gap rest st' rfl hst'
    have hitem := ih (d + 1)
    rw [← Nat.add_assoc, Nat.add_right_comm] at hitem
    exact structured_gives hitem hk hst'

end Parser

end LocatedJson
