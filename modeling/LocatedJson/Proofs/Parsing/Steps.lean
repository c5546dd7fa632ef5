import LocatedJson.Parser
import LocatedJson.Proofs.Grammar.Phrase
import LocatedJson.Proofs.Lexing.Lexemes

/-! The steps that parsing is made of. A token that has been looked at is a matter of the state
alone: parsing goes on from a cursor in the same way whether its token was read or not. The loops
over elements and over members are one loop. -/
namespace LocatedJson

open Grammar

theorem Grammar.exists_gap (bytes : List Byte) :
    ∃ (gap : Gap) (rest : List Byte), bytes = gap.bytes ++ rest ∧ Stops Byte.isBlank rest :=
  ⟨⟨bytes.takeWhile Byte.isBlank, fun _ hb => mem_blanks_iff.2 (List.mem_takeWhile_imp hb)⟩,
    bytes.dropWhile Byte.isBlank, List.takeWhile_append_dropWhile.symm, stops_dropWhile _ _⟩

namespace Cursor

/-- The cursor behind a text. -/
def behind (text rest : List Byte) : Cursor := ⟨text.length, rest⟩

theorem advance_behind (text front rest : List Byte) :
    (behind text (front ++ rest)).advance front.length = behind (text ++ front) rest := by
  rw [advance, behind, behind, List.drop_left, List.length_append]

def skipped (c : Cursor) : Cursor := c.advance (c.rest.takeWhile Byte.isBlank).length

theorem skipped_behind (text : List Byte) (gap : Gap) {rest : List Byte}
    (h : Stops Byte.isBlank rest) :
    (behind text (gap.bytes ++ rest)).skipped = behind (text ++ gap.bytes) rest := by
  have htaken : ((behind text (gap.bytes ++ rest)).rest.takeWhile Byte.isBlank) = gap.bytes :=
    takeWhile_append_stop gap.blank h
  rw [skipped, htaken, advance_behind]

variable (o : Options) (l : Limits)

/-- A token is what the lexer reads behind the blanks. -/
theorem nextToken_eq_scan (c : Cursor) :
    nextToken o l c =
      match Token.Kind.scan o l c.skipped.rest with
      | .ok (kind, n) => .ok ⟨kind, c.skipped.pos⟩ (c.skipped.advance n)
      | .error f => .error ⟨f.cause, c.skipped.pos + f.offset⟩ (c.skipped.advance f.stop) := by
  have hskip : skipBlanks c = .ok () c.skipped := rfl
  have hbind : nextToken o l c =
      (do
        let offset := (← get).pos
        let kind ← read (Token.Kind.scan o l)
        return { kind, offset : Token } : CursorM Token) c.skipped := by
    simp only [nextToken, bind, EStateM.bind, hskip]
  rw [hbind]
  simp only [bind, EStateM.bind, get, getThe, MonadStateOf.get, EStateM.get, read]
  split <;> rename_i heq <;> split at heq <;> simp_all [pure, EStateM.pure]

theorem nextToken_eq (text : List Byte) (gap : Gap) {rest : List Byte}
    (h : Stops Byte.isBlank rest) :
    nextToken o l (behind text (gap.bytes ++ rest)) =
      match Token.Kind.scan o l rest with
      | .ok (kind, n) => .ok ⟨kind, (text ++ gap.bytes).length⟩
          ((behind (text ++ gap.bytes) rest).advance n)
      | .error f => .error ⟨f.cause, (text ++ gap.bytes).length + f.offset⟩
          ((behind (text ++ gap.bytes) rest).advance f.stop) := by
  rw [nextToken_eq_scan, skipped_behind text gap h]
  rfl

variable {o l}

theorem nextToken_lexeme {x : Lexeme} (hx : x.Admitted o .paired) (hl : x.Within l)
    (text : List Byte) (gap : Gap) {rest : List Byte} (hrest : x.EndsBefore rest) :
    nextToken o l (behind text (gap.bytes ++ (x.text ++ rest))) =
      .ok ⟨x.kind, (text ++ gap.bytes).length⟩ (behind (text ++ (gap.bytes ++ x.text)) rest) := by
  rw [nextToken_eq o l text gap (Token.Kind.stops_isBlank_lexeme x rest),
    Token.Kind.scan_within hx hl hrest]
  dsimp only
  rw [advance_behind, List.append_assoc]

theorem nextToken_mark (m : Mark) (text : List Byte) (gap : Gap) (rest : List Byte) :
    nextToken o l (behind text (gap.bytes ++ m.byte :: rest)) =
      .ok ⟨.mark m, (text ++ gap.bytes).length⟩ (behind (text ++ (gap.bytes ++ [m.byte])) rest) :=
  nextToken_lexeme (x := .mark m) trivial trivial text gap trivial

theorem nextToken_string {q : Quoted} (hq : q.Admitted o .paired) (hl : (Scalar.string q).Within l)
    (text : List Byte) (gap : Gap) (rest : List Byte) :
    nextToken o l (behind text (gap.bytes ++ (q.text ++ rest))) =
      .ok ⟨.string q.string, (text ++ gap.bytes).length⟩
        (behind (text ++ (gap.bytes ++ q.text)) rest) :=
  nextToken_lexeme (x := .scalar (.string q)) hq hl text gap trivial

theorem nextToken_eof (text : List Byte) (gap : Gap) :
    nextToken o l (behind text gap.bytes) =
      .ok ⟨.eof, (text ++ gap.bytes).length⟩ (behind (text ++ gap.bytes) []) := by
  have h := nextToken_eq o l text gap (stops_nil _)
  rw [List.append_nil] at h
  exact h

/-- What the lexer finds behind a text. -/
inductive Pulls (o : Options) (l : Limits) (text bytes : List Byte) :
    EStateM.Result Failure Cursor Token → Prop where
  | eof (gap : Gap) (hbytes : bytes = gap.bytes) :
      Pulls o l text bytes (.ok ⟨.eof, (text ++ gap.bytes).length⟩ (behind (text ++ gap.bytes) []))
  | lexeme (gap : Gap) (x : Lexeme) (rest : List Byte)
      (hbytes : bytes = gap.bytes ++ (x.text ++ rest)) (hx : x.Admitted o .paired)
      (hl : x.Within l) (hrest : x.EndsBefore rest) :
      Pulls o l text bytes (.ok ⟨x.kind, (text ++ gap.bytes).length⟩
        (behind (text ++ (gap.bytes ++ x.text)) rest))
  | refused (gap : Gap) (rest : List Byte) (f : Fault) (c : Cursor)
      (hbytes : bytes = gap.bytes ++ rest) (hf : Token.Kind.RefusedWith o l rest f) :
      Pulls o l text bytes (.error ⟨f.cause, (text ++ gap.bytes).length + f.offset⟩ c)

theorem nextToken_pulls (o : Options) (l : Limits) (text bytes : List Byte) :
    Pulls o l text bytes (nextToken o l (behind text bytes)) := by
  obtain ⟨gap, rest, hsplit, hstop⟩ := exists_gap bytes
  cases rest with
  | nil =>
    rw [List.append_nil] at hsplit
    have h : Pulls o l text bytes _ := .eof gap hsplit
    rw [← nextToken_eof text gap, ← hsplit] at h
    exact h
  | cons b tail =>
    rcases Token.Kind.scan_cases o l b tail with ⟨x, rest, hx, hl, htext, hrest⟩ | ⟨f, hf⟩
    · rw [htext] at hsplit
      have h : Pulls o l text bytes _ := .lexeme gap x rest hsplit hx hl hrest
      rw [← nextToken_lexeme hx hl text gap hrest, ← hsplit] at h
      exact h
    · have heq := nextToken_eq o l text gap hstop
      rw [hf.1, ← hsplit] at heq
      rw [heq]
      exact .refused gap _ f _ hsplit hf

theorem length_rest_le {text bytes : List Byte} {t : Token} {c : Cursor}
    (h : nextToken o l (behind text bytes) = .ok t c) : c.rest.length ≤ bytes.length := by
  have hpulls := nextToken_pulls o l text bytes
  rw [h] at hpulls
  cases hpulls with
  | eof gap hbytes => exact Nat.zero_le _
  | lexeme gap x rest hbytes hx hl hrest =>
    rw [hbytes, List.length_append, List.length_append, ← Nat.add_assoc]
    exact Nat.le_add_left _ _

/-- Where a cursor stands is told by any text of the right length. -/
theorem exists_behind (cursor : Cursor) : ∃ text, cursor = behind text cursor.rest :=
  ⟨List.replicate cursor.pos 0, by rw [behind, List.length_replicate]⟩

theorem length_rest_lt {cursor cursor' : Cursor} {t : Token}
    (h : nextToken o l cursor = .ok t cursor') (ht : t.kind ≠ .eof) :
    cursor'.rest.length < cursor.rest.length := by
  obtain ⟨text, htext⟩ := exists_behind cursor
  have hpulls := nextToken_pulls o l text cursor.rest
  rw [← htext, h] at hpulls
  generalize cursor.rest = bytes at hpulls
  cases hpulls with
  | eof gap hbytes => exact absurd rfl ht
  | lexeme gap x rest hbytes hx hl hrest =>
    obtain ⟨b, tail, hcons⟩ := Token.Kind.exists_text_eq_cons x
    rw [hbytes, hcons]
    simp only [behind, List.length_append, List.length_cons]
    omega

theorem length_rest_le_of_nextToken {cursor cursor' : Cursor} {t : Token}
    (h : nextToken o l cursor = .ok t cursor') : cursor'.rest.length ≤ cursor.rest.length := by
  obtain ⟨text, htext⟩ := exists_behind cursor
  rw [htext] at h
  exact length_rest_le h

end Cursor

namespace Parser

section Monad

variable {α β : Type} {m : ParserM α} {f : α → ParserM β} {s s' : State}

theorem bind_ok {a : α} (h : m s = .ok a s') : (m >>= f) s = f a s' := by
  simp only [bind, EStateM.bind, h]

theorem bind_error {failure : Failure} (h : m s = .error failure s') :
    (m >>= f) s = .error failure s' := by
  simp only [bind, EStateM.bind, h]

theorem exists_of_bind_ok {b : β} {s'' : State} (h : (m >>= f) s = .ok b s'') :
    ∃ a s', m s = .ok a s' ∧ f a s' = .ok b s'' := by
  cases hm : m s with
  | ok a s' =>
    rw [bind_ok hm] at h
    exact ⟨a, s', rfl, h⟩
  | error failure s' =>
    rw [bind_error hm] at h
    cases h

theorem map_ok {g : α → β} {a : α} (h : m s = .ok a s') : (g <$> m) s = .ok (g a) s' := by
  simp only [Functor.map, EStateM.map, h]

theorem map_error {g : α → β} {failure : Failure} (h : m s = .error failure s') :
    (g <$> m) s = .error failure s' := by
  simp only [Functor.map, EStateM.map, h]

theorem discard_ok {a : α} (h : m s = .ok a s') : discard m s = .ok () s' := map_ok h

def Gives (r : EStateM.Result Failure State α) (good : α → State → Prop)
    (bad : Failure → Prop) : Prop :=
  match r with
  | .ok a s => good a s
  | .error failure _ => bad failure

theorem Gives.bind {good : α → State → Prop} {good' : β → State → Prop} {bad : Failure → Prop}
    (h : Gives (m s) good bad) (hf : ∀ a s', good a s' → Gives (f a s') good' bad) :
    Gives ((m >>= f) s) good' bad := by
  cases hm : m s with
  | ok a s' =>
    rw [hm] at h
    rw [bind_ok hm]
    exact hf a s' h
  | error failure s' =>
    rw [hm] at h
    rw [bind_error hm]
    exact h

theorem Gives.map {good : α → State → Prop} {bad : Failure → Prop} {g : α → β}
    (h : Gives (m s) good bad) :
    Gives ((g <$> m) s) (fun b s' => ∃ a, g a = b ∧ good a s') bad := by
  cases hm : m s with
  | ok a s' =>
    rw [hm] at h
    rw [map_ok hm]
    exact ⟨a, rfl, h⟩
  | error failure s' =>
    rw [hm] at h
    rw [map_error hm]
    exact h

end Monad

variable {o : Options} {l : Limits} {c c' : Cursor} {d : Nat} {s : State} {t : Token}
  {failure : Failure}

/-- The state stands at a cursor, its token read or not. -/
def Looks (o : Options) (l : Limits) (c : Cursor) (d : Nat) (s : State) : Prop :=
  s = ⟨c, none, d⟩ ∨ ∃ t c', Cursor.nextToken o l c = .ok t c' ∧ s = ⟨c', some t, d⟩

theorem looks_none (c : Cursor) (d : Nat) : Looks o l c d ⟨c, none, d⟩ := .inl rfl

theorem looks_some (h : Cursor.nextToken o l c = .ok t c') (d : Nat) :
    Looks o l c d ⟨c', some t, d⟩ := .inr ⟨t, c', h, rfl⟩

theorem current_ok (h : Looks o l c d s) (ht : Cursor.nextToken o l c = .ok t c') :
    current o l s = .ok t ⟨c', some t, d⟩ := by
  rcases h with rfl | ⟨t', c'', ht', rfl⟩
  · simp [current, bind, EStateM.bind, get, getThe, MonadStateOf.get, EStateM.get, atCursor, ht,
      modify, modifyGet, MonadStateOf.modifyGet, EStateM.modifyGet, pure, EStateM.pure]
  · rw [ht] at ht'
    cases ht'
    rfl

theorem current_error (h : Looks o l c d s) (ht : Cursor.nextToken o l c = .error failure c') :
    current o l s = .error failure ⟨c', none, d⟩ := by
  rcases h with rfl | ⟨t', c'', ht', rfl⟩
  · simp [current, bind, EStateM.bind, get, getThe, MonadStateOf.get, EStateM.get, atCursor, ht]
  · rw [ht] at ht'
    cases ht'

theorem advance_ok (h : Looks o l c d s) (ht : Cursor.nextToken o l c = .ok t c') :
    advance o l s = .ok t ⟨c', none, d⟩ := by
  unfold advance
  rw [bind_ok (current_ok h ht)]
  rfl

theorem advance_error (h : Looks o l c d s) (ht : Cursor.nextToken o l c = .error failure c') :
    advance o l s = .error failure ⟨c', none, d⟩ := by
  unfold advance
  rw [bind_error (current_error h ht)]

section Series

open Structure (Tag Entry)

variable (o : Options) (l : Limits)

def elementAhead : ParserM Unit := do
  let token ← current o l
  if token.kind = .eof then fail (.unterminated .array) token.offset else return ()

def leadOf : (s : Structure) → ParserM (Tag s)
  | .object => memberKey o l
  | .array => elementAhead o l

def separatorOf : Structure → Wanted
  | .object => .memberEnd
  | .array => .elementEnd

def separated (s : Structure) (rest : ParserM (List (Entry s))) (entry : Entry s)
    (separator : Token) : ParserM (List (Entry s)) :=
  if separator.kind = .mark .comma then do
    let more ← rest
    return entry :: more
  else if separator.kind = .mark s.closing then return [entry]
  else unexpected separator (separatorOf s) s

/-- The items of a structure up to its closing bracket. -/
def series (s : Structure) (item : ParserM Value) : Nat → ParserM (List (Entry s))
  | 0 => do fail (.unterminated s) (← get).pos
  | bound + 1 => do
    let tag ← leadOf o l s
    let value ← item
    let separator ← advance o l
    separated s (series s item bound) (s.entry tag value) separator

theorem elements_succ (item : ParserM Value) (bound : Nat) :
    elements o l item (bound + 1) = (do
      elementAhead o l
      let value ← item
      let separator ← advance o l
      match separator.kind with
      | .mark .comma =>
        let more ← elements o l item bound
        return value :: more
      | .mark .closeBracket => return [value]
      | _ => unexpected separator .elementEnd .array) := by
  rw [elements, elementAhead, bind_assoc]
  apply bind_congr
  intro token
  by_cases heof : token.kind = .eof
  · rw [if_pos heof, if_pos heof]
    rfl
  · rw [if_neg heof, if_neg heof]
    rfl

theorem elements_eq_series (item : ParserM Value) (bound : Nat) :
    elements o l item bound = series o l .array item bound := by
  induction bound with
  | zero => rfl
  | succ bound ih =>
    rw [elements_succ]
    unfold series leadOf separated
    refine bind_congr fun _ => bind_congr fun value => bind_congr fun separator => ?_
    rw [ih]
    cases separator.kind with
    | mark m => cases m <;> rfl
    | string _ => rfl
    | number _ => rfl
    | bool _ => rfl
    | null => rfl
    | eof => rfl

theorem members_eq_series (item : ParserM Value) (bound : Nat) :
    members o l item bound = series o l .object item bound := by
  induction bound with
  | zero => rfl
  | succ bound ih =>
    unfold members series leadOf separated
    refine bind_congr fun key => bind_congr fun value => bind_congr fun separator => ?_
    rw [ih]
    cases separator.kind with
    | mark m => cases m <;> rfl
    | string _ => rfl
    | number _ => rfl
    | bool _ => rfl
    | null => rfl
    | eof => rfl

/-- A structure from its opening bracket on. -/
def structured (s : Structure) (item : ParserM Value) : ParserM Value :=
  bracketed o l s.closing (s.build []) fun room => s.build <$> series o l s item room

theorem array_eq_structured (item : ParserM Value) :
    array o l item = structured o l .array item := by
  simp only [array, structured, elements_eq_series]
  rfl

theorem object_eq_structured (item : ParserM Value) :
    object o l item = structured o l .object item := by
  simp only [object, structured, members_eq_series]
  rfl

theorem value_succ (levels : Nat) :
    value o l (levels + 1) = valueWith o l fun s => structured o l s (value o l levels) := by
  rw [value]
  congr 1
  funext s
  cases s with
  | array => exact array_eq_structured o l _
  | object => exact object_eq_structured o l _

end Series

/-- What is done behind an opening bracket. -/
def interior (o : Options) (l : Limits) (closing : Mark) (empty : Value)
    (filled : Nat → ParserM Value) : ParserM Value := do
  let first ← current o l
  if first.kind = .mark closing then
    discard (advance o l)
    leave
    return empty
  else
    let value ← filled (← roomAhead)
    leave
    return value

theorem enter_ok (hd : s.depth + 1 ≤ l.nestingDepth.val) (offset : Nat) :
    enter l offset s = .ok () { s with depth := s.depth + 1 } := by
  have hnone : l.violation? .nestingDepth (s.depth + 1) = none := by
    rw [Limits.violation?_eq_none_iff]
    rintro bound ⟨⟩
    exact hd
  simp [enter, Limits.deeper, hnone, bind, EStateM.bind, get, getThe, MonadStateOf.get,
    EStateM.get, modify, modifyGet, MonadStateOf.modifyGet, EStateM.modifyGet, pure, EStateM.pure]

theorem enter_error (hd : l.nestingDepth.val < s.depth + 1) (offset : Nat) :
    enter l offset s =
      .error ⟨.limitExceeded .nestingDepth (s.depth + 1) l.nestingDepth.val, offset⟩
        { s with depth := s.depth + 1 } := by
  have hsome := Limits.violation?_of_lt (l := l) (m := .nestingDepth) rfl hd
  simp [enter, Limits.deeper, hsome, bind, EStateM.bind, get, getThe, MonadStateOf.get,
    EStateM.get, modify, modifyGet, MonadStateOf.modifyGet, EStateM.modifyGet, fail, throw,
    throwThe, MonadExceptOf.throw, EStateM.throw]

theorem bracketed_ok (h : Looks o l c d s) (ht : Cursor.nextToken o l c = .ok t c')
    (hd : d + 1 ≤ l.nestingDepth.val) (closing : Mark) (empty : Value)
    (filled : Nat → ParserM Value) :
    bracketed o l closing empty filled s =
      interior o l closing empty filled ⟨c', none, d + 1⟩ := by
  unfold bracketed
  rw [bind_ok (advance_ok h ht), bind_ok (enter_ok hd t.offset)]
  rfl

theorem bracketed_error (h : Looks o l c d s) (ht : Cursor.nextToken o l c = .ok t c')
    (hd : l.nestingDepth.val < d + 1) (closing : Mark) (empty : Value)
    (filled : Nat → ParserM Value) :
    bracketed o l closing empty filled s =
      .error ⟨.limitExceeded .nestingDepth (d + 1) l.nestingDepth.val, t.offset⟩
        ⟨c', none, d + 1⟩ := by
  unfold bracketed
  rw [bind_ok (advance_ok h ht), bind_error (enter_error hd t.offset)]

theorem interior_closing (h : Looks o l c (d + 1) s) {closing : Mark} {offset : Nat}
    (ht : Cursor.nextToken o l c = .ok ⟨.mark closing, offset⟩ c') (empty : Value)
    (filled : Nat → ParserM Value) :
    interior o l closing empty filled s = .ok empty ⟨c', none, d⟩ := by
  unfold interior
  rw [bind_ok (current_ok h ht), if_pos rfl]
  rw [bind_ok (discard_ok (advance_ok (looks_some ht (d + 1)) ht))]
  rfl

theorem interior_ok {room : Nat} (h : Looks o l c (d + 1) s)
    (ht : Cursor.nextToken o l c = .ok t c') {closing : Mark} (hk : t.kind ≠ .mark closing)
    {empty v : Value} {filled : Nat → ParserM Value} {c'' : Cursor}
    (hroom : room = c'.rest.length + 1)
    (hfilled : filled room ⟨c', some t, d + 1⟩ = .ok v ⟨c'', none, d + 1⟩) :
    interior o l closing empty filled s = .ok v ⟨c'', none, d⟩ := by
  subst hroom
  unfold interior
  rw [bind_ok (current_ok h ht), if_neg hk]
  have hahead : roomAhead ⟨c', some t, d + 1⟩ = .ok (c'.rest.length + 1) ⟨c', some t, d + 1⟩ := rfl
  rw [bind_ok hahead, bind_ok hfilled]
  rfl

section ValueWith

variable {structured : Structure → ParserM Value} {offset : Nat}

theorem valueWith_scalar (h : Looks o l c d s) {x : Scalar}
    (ht : Cursor.nextToken o l c = .ok ⟨x.kind, offset⟩ c') :
    valueWith o l structured s = .ok x.value ⟨c', none, d⟩ := by
  have hadvance := discard_ok (advance_ok (looks_some ht d) ht)
  unfold valueWith
  rw [bind_ok (current_ok h ht)]
  match x with
  | .word (.bool b) => exact bind_ok hadvance
  | .word .null => exact bind_ok hadvance
  | .special n => exact bind_ok hadvance
  | .decimal n => exact bind_ok hadvance
  | .string q => exact bind_ok hadvance

theorem valueWith_opening (h : Looks o l c d s) {inner : Structure}
    (ht : Cursor.nextToken o l c = .ok ⟨.mark inner.opening, offset⟩ c') :
    valueWith o l structured s =
      structured inner ⟨c', some ⟨.mark inner.opening, offset⟩, d⟩ := by
  unfold valueWith
  rw [bind_ok (current_ok h ht)]
  cases inner <;> rfl

theorem valueWith_mark (h : Looks o l c d s) {m : Mark}
    (hm : ∀ inner : Structure, m ≠ inner.opening)
    (ht : Cursor.nextToken o l c = .ok ⟨.mark m, offset⟩ c') :
    valueWith o l structured s =
      .error ⟨.unexpectedToken .value (.mark m), offset⟩ ⟨c', some ⟨.mark m, offset⟩, d⟩ := by
  unfold valueWith
  rw [bind_ok (current_ok h ht)]
  cases m with
  | openBrace => exact absurd rfl (hm .object)
  | openBracket => exact absurd rfl (hm .array)
  | closeBrace => rfl
  | closeBracket => rfl
  | colon => rfl
  | comma => rfl

theorem valueWith_eof (h : Looks o l c d s)
    (ht : Cursor.nextToken o l c = .ok ⟨.eof, offset⟩ c') :
    valueWith o l structured s = .error ⟨.missingValue, offset⟩ ⟨c', some ⟨.eof, offset⟩, d⟩ := by
  unfold valueWith
  rw [bind_ok (current_ok h ht)]
  rfl

end ValueWith

end Parser

end LocatedJson
