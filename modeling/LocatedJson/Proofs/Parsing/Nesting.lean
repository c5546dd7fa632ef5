import LocatedJson.Proofs.Pushdown.Agreement

/-! Structures left open. The parser counts a structure when it has consumed the opening bracket
and counts it off behind the closing one, so that behind a value the count is what it was, and
after a failure it exceeds that by the structures that the consumed tokens leave open. -/
namespace LocatedJson

open Grammar

/-- The structures that are open behind a token, the innermost first. An opening bracket opens one,
a closing bracket closes its own. -/
def Token.Kind.nest : Token.Kind → List Structure → List Structure
  | .mark .openBrace, stack => .object :: stack
  | .mark .openBracket, stack => .array :: stack
  | .mark .closeBrace, .object :: stack => stack
  | .mark .closeBracket, .array :: stack => stack
  | _, stack => stack

def nested (ts : List Token) (stack : List Structure) : List Structure :=
  ts.foldl (fun stack t => t.kind.nest stack) stack

@[simp] theorem nested_nil (stack : List Structure) : nested [] stack = stack := rfl

@[simp] theorem nested_cons (t : Token) (ts : List Token) (stack : List Structure) :
    nested (t :: ts) stack = nested ts (t.kind.nest stack) := rfl

@[simp] theorem nested_append (ts us : List Token) (stack : List Structure) :
    nested (ts ++ us) stack = nested us (nested ts stack) := List.foldl_append

@[simp] theorem Token.Kind.nest_opening (s : Structure) (stack : List Structure) :
    nest (.mark s.opening) stack = s :: stack := by
  cases s <;> rfl

@[simp] theorem Token.Kind.nest_closing (s : Structure) (stack : List Structure) :
    nest (.mark s.closing) (s :: stack) = stack := by
  cases s <;> rfl

namespace Cursor

/-- The tokens that stand one after another from a cursor on. -/
inductive Consumes (o : Options) (l : Limits) : Cursor → List Token → Cursor → Prop where
  | nil (c : Cursor) : Consumes o l c [] c
  | cons {c c' c'' : Cursor} {t : Token} {ts : List Token} (h : nextToken o l c = .ok t c')
      (hrest : Consumes o l c' ts c'') : Consumes o l c (t :: ts) c''

namespace Consumes

variable {o : Options} {l : Limits} {c c' c'' : Cursor} {t : Token} {ts us : List Token}

theorem single (h : nextToken o l c = .ok t c') : Consumes o l c [t] c' := .cons h (.nil c')

theorem append (h : Consumes o l c ts c') (h' : Consumes o l c' us c'') :
    Consumes o l c (ts ++ us) c'' := by
  induction h with
  | nil => exact h'
  | cons hnext _ ih => exact .cons hnext (ih h')

theorem length_rest_le (h : Consumes o l c ts c') : c'.rest.length ≤ c.rest.length := by
  induction h with
  | nil => exact Nat.le_refl _
  | cons hnext _ ih => exact ih.trans (length_rest_le_of_nextToken hnext)

theorem length_rest_lt_room (h : Consumes o l c ts c') (hne : ts ≠ []) {room : Nat}
    (hroom : Parser.Room o l c room) : c'.rest.length < room := by
  cases h with
  | nil => exact absurd rfl hne
  | cons hnext hrest => exact hrest.length_rest_le.trans_lt (hroom.2 _ _ hnext)

end Consumes

end Cursor

open Cursor (Consumes)

namespace Parser

/-- How the parser fails from a cursor on, with the tokens that it had got through: the next one
cannot be read; or it is read and refused, be it held or consumed; or the last one is a bracket
that opens one structure too many. -/
inductive Halts (o : Options) (l : Limits) (c : Cursor) : List Token → Failure → State → Prop where
  | unread {ts : List Token} {c' c'' : Cursor} {failure : Failure} {d : Nat}
      (h : Consumes o l c ts c') (hnext : Cursor.nextToken o l c' = .error failure c'') :
      Halts o l c ts failure ⟨c'', none, d⟩
  | refused {ts : List Token} {c' c'' : Cursor} {t : Token} {cause : Cause} {ahead : Option Token}
      {d : Nat} (h : Consumes o l c ts c') (hnext : Cursor.nextToken o l c' = .ok t c'')
      (hcause : cause.kind = .grammar) (hahead : ∀ held ∈ ahead, held = t) :
      Halts o l c ts ⟨cause, t.offset⟩ ⟨c'', ahead, d⟩
  | bracket {ts : List Token} {c' : Cursor} {s : Structure} {offset d : Nat} {failure : Failure}
      (h : Consumes o l c (ts ++ [⟨.mark s.opening, offset⟩]) c')
      (hcause : failure.cause.kind = .limit) :
      Halts o l c (ts ++ [⟨.mark s.opening, offset⟩]) failure ⟨c', none, d⟩

variable {o : Options} {l : Limits} {c c' : Cursor} {d : Nat} {st : State} {s : Structure}
  {ts us : List Token} {failure : Failure}

theorem Halts.behind (h : Consumes o l c ts c') (hhalts : Halts o l c' us failure st) :
    Halts o l c (ts ++ us) failure st := by
  cases hhalts with
  | unread h' hnext => exact .unread (h.append h') hnext
  | refused h' hnext hcause hahead => exact .refused (h.append h') hnext hcause hahead
  | bracket h' hcause =>
    rw [← List.append_assoc]
    refine .bracket ?_ hcause
    rw [List.append_assoc]
    exact h.append h'

/-- The tokens leave these structures open, whatever was open before. -/
def Leaves (ts : List Token) (opened : List Structure) : Prop :=
  ∀ stack, nested ts stack = opened ++ stack

/-- The parser halts with its count raised by the structures left open. -/
def HaltsAt (o : Options) (l : Limits) (c : Cursor) (d : Nat) (failure : Failure) (st : State) :
    Prop :=
  ∃ ts opened, Halts o l c ts failure st ∧ Leaves ts opened ∧ st.depth = d + opened.length

theorem HaltsAt.behind (h : Consumes o l c ts c') (hts : Leaves ts [])
    (hhalts : HaltsAt o l c' d failure st) : HaltsAt o l c d failure st := by
  obtain ⟨us, opened, hus, hopened, hdepth⟩ := hhalts
  refine ⟨ts ++ us, opened, hus.behind h, fun stack => ?_, hdepth⟩
  rw [nested_append, hts, List.nil_append, hopened]

/-- One more structure is open than is told of from behind its bracket. -/
theorem HaltsAt.inside {offset : Nat}
    (hnext : Cursor.nextToken o l c = .ok ⟨.mark s.opening, offset⟩ c')
    (hhalts : HaltsAt o l c' (d + 1) failure st) : HaltsAt o l c d failure st := by
  obtain ⟨us, opened, hus, hopened, hdepth⟩ := hhalts
  refine ⟨[⟨.mark s.opening, offset⟩] ++ us, opened ++ [s], hus.behind (.single hnext),
    fun stack => ?_, ?_⟩
  · rw [nested_append, nested_cons, nested_nil, Token.Kind.nest_opening, hopened,
      List.append_assoc, List.singleton_append]
  · rw [hdepth, List.length_append, List.length_singleton]
    omega

theorem haltsAt_unread {c'' : Cursor} (hnext : Cursor.nextToken o l c = .error failure c'') :
    HaltsAt o l c d failure ⟨c'', none, d⟩ :=
  ⟨[], [], .unread (.nil c) hnext, fun _ => rfl, rfl⟩

theorem haltsAt_refused {t : Token} {cause : Cause} {ahead : Option Token}
    (hnext : Cursor.nextToken o l c = .ok t c') (hcause : cause.kind = .grammar)
    (hahead : ∀ held ∈ ahead, held = t) :
    HaltsAt o l c d ⟨cause, t.offset⟩ ⟨c', ahead, d⟩ :=
  ⟨[], [], .refused (.nil c) hnext hcause hahead, fun _ => rfl, rfl⟩

theorem haltsAt_bracket {offset : Nat}
    (hnext : Cursor.nextToken o l c = .ok ⟨.mark s.opening, offset⟩ c')
    (hcause : failure.cause.kind = .limit) :
    HaltsAt o l c d failure ⟨c', none, d + 1⟩ := by
  refine ⟨[] ++ [⟨.mark s.opening, offset⟩], [s], .bracket (.single hnext) hcause, ?_, rfl⟩
  intro stack
  exact Token.Kind.nest_opening s stack

section Rules

variable {α β : Type} {m : ParserM α} {good : α → List Token → Cursor → State → Prop}
  {good' : β → List Token → Cursor → State → Prop}

/-- What a part of the parser comes to from a cursor on: behind the tokens that it has consumed
something holds, or it halts. -/
def Counts (o : Options) (l : Limits) (c : Cursor) (d : Nat)
    (good : α → List Token → Cursor → State → Prop) (r : EStateM.Result Failure State α) : Prop :=
  match r with
  | .ok a st => ∃ ts c', Consumes o l c ts c' ∧ good a ts c' st
  | .error failure st => HaltsAt o l c d failure st

theorem Counts.behind {r : EStateM.Result Failure State α} (h : Consumes o l c ts c')
    (hts : Leaves ts []) (hr : Counts o l c' d (fun a us => good a (ts ++ us)) r) :
    Counts o l c d good r := by
  cases r with
  | ok a st =>
    obtain ⟨us, c'', hus, hgood⟩ := hr
    exact ⟨ts ++ us, c'', h.append hus, hgood⟩
  | error failure st => exact HaltsAt.behind h hts hr

theorem Counts.bind {f : α → ParserM β}
    (h : Counts o l c d (fun a ts c' st' => Leaves ts [] ∧ good a ts c' st') (m st))
    (hf : ∀ a ts c' st', Consumes o l c ts c' → Leaves ts [] → good a ts c' st' →
      Counts o l c' d (fun b us => good' b (ts ++ us)) (f a st')) :
    Counts o l c d good' ((m >>= f) st) := by
  cases hm : m st with
  | ok a st' =>
    rw [hm] at h
    rw [bind_ok hm]
    obtain ⟨ts, c', hts, hleaves, hgood⟩ := h
    exact .behind hts hleaves (hf a ts c' st' hts hleaves hgood)
  | error failure st' =>
    rw [hm] at h
    rw [bind_error hm]
    exact h

theorem Counts.bind_ok {f : α → ParserM β} (h : Counts o l c d good (m st))
    (hf : ∀ a ts c' st', good a ts c' st' → ∃ b st'', f a st' = .ok b st'' ∧ good' b ts c' st'') :
    Counts o l c d good' ((m >>= f) st) := by
  cases hm : m st with
  | ok a st' =>
    rw [hm] at h
    rw [Parser.bind_ok hm]
    obtain ⟨ts, c', hts, hgood⟩ := h
    obtain ⟨b, st'', hb, hgood'⟩ := hf a ts c' st' hgood
    rw [hb]
    exact ⟨ts, c', hts, hgood'⟩
  | error failure st' =>
    rw [hm] at h
    rw [bind_error hm]
    exact h

theorem Counts.map {g : α → β} (h : Counts o l c d good (m st)) :
    Counts o l c d (fun b ts c' st' => ∃ a, g a = b ∧ good a ts c' st') ((g <$> m) st) := by
  cases hm : m st with
  | ok a st' =>
    rw [hm] at h
    rw [map_ok hm]
    obtain ⟨ts, c', hts, hgood⟩ := h
    exact ⟨ts, c', hts, a, rfl, hgood⟩
  | error failure st' =>
    rw [hm] at h
    rw [map_error hm]
    exact h

theorem counts_current {f : Token → ParserM α} (hst : Looks o l c d st)
    (hok : ∀ t c', Cursor.nextToken o l c = .ok t c' →
      Counts o l c d good (f t ⟨c', some t, d⟩)) :
    Counts o l c d good ((current o l >>= f) st) := by
  cases hnext : Cursor.nextToken o l c with
  | ok t c' =>
    rw [Parser.bind_ok (current_ok hst hnext)]
    exact hok t c' hnext
  | error failure c' =>
    rw [bind_error (current_error hst hnext)]
    exact haltsAt_unread hnext

theorem counts_advance {f : Token → ParserM α} (hst : Looks o l c d st)
    (hok : ∀ t c', Cursor.nextToken o l c = .ok t c' →
      Counts o l c d good (f t ⟨c', none, d⟩)) :
    Counts o l c d good ((advance o l >>= f) st) := by
  cases hnext : Cursor.nextToken o l c with
  | ok t c' =>
    rw [Parser.bind_ok (advance_ok hst hnext)]
    exact hok t c' hnext
  | error failure c' =>
    rw [bind_error (advance_error hst hnext)]
    exact haltsAt_unread hnext

theorem counts_unexpected {t : Token} (hnext : Cursor.nextToken o l c = .ok t c') (wanted : Wanted)
    (s : Structure) {ahead : Option Token} (hahead : ∀ held ∈ ahead, held = t) :
    Counts o l c d good (unexpected t wanted s ⟨c', ahead, d⟩) := by
  by_cases heof : t.kind = .eof
  · obtain ⟨kind, offset⟩ := t
    subst heof
    have hfail : (unexpected ⟨.eof, offset⟩ wanted s : ParserM α) ⟨c', ahead, d⟩ =
        .error ⟨.unterminated s, offset⟩ ⟨c', ahead, d⟩ := rfl
    rw [hfail]
    exact haltsAt_refused hnext rfl hahead
  · rw [unexpected_token heof]
    exact haltsAt_refused hnext rfl hahead

end Rules

abbrev Restored (d : Nat) (_ : Value) (ts : List Token) (c' : Cursor) (st' : State) : Prop :=
  Leaves ts [] ∧ ts ≠ [] ∧ st' = ⟨c', none, d⟩

def CountsValues (o : Options) (l : Limits) (d : Nat) (item : ParserM Value) : Prop :=
  ∀ (c : Cursor) (st : State), Looks o l c d st → Counts o l c d (Restored d) (item st)

theorem leadOf_counts (hst : Looks o l c d st) :
    Counts o l c d (fun _ ts c' st' => Leaves ts [] ∧ Looks o l c' d st') (leadOf o l s st) := by
  cases s with
  | array =>
    refine counts_current hst fun t c' hnext => ?_
    by_cases heof : t.kind = .eof
    · rw [if_pos heof]
      exact haltsAt_refused hnext rfl (by rintro _ ⟨⟩; rfl)
    · rw [if_neg heof]
      exact ⟨[], c, .nil c, fun _ => rfl, looks_some hnext d⟩
  | object =>
    refine counts_current hst fun t c₁ hnext => ?_
    obtain ⟨kind, offset⟩ := t
    cases kind with
    | string key =>
      dsimp only
      rw [bind_ok (discard_ok (advance_ok (looks_some hnext d) hnext))]
      refine .behind (.single hnext) (fun _ => rfl) ?_
      refine counts_current (looks_none _ d) fun colon c₂ hcolon => ?_
      by_cases hkind : colon.kind = .mark .colon
      · rw [if_pos hkind, bind_ok (discard_ok (advance_ok (looks_some hcolon d) hcolon))]
        refine ⟨[colon], c₂, .single hcolon, fun stack => ?_, looks_none _ d⟩
        rw [List.singleton_append, nested_cons, nested_cons, hkind]
        rfl
      · rw [if_neg hkind]
        exact counts_unexpected hcolon _ _ (by rintro _ ⟨⟩; rfl)
    | _ => exact counts_unexpected hnext .key .object (by rintro _ ⟨⟩; rfl)

def Closes (s : Structure) (ts : List Token) : Prop := ∀ stack, nested ts (s :: stack) = stack

theorem Closes.behind (hts : Leaves ts []) (hus : Closes s us) : Closes s (ts ++ us) := by
  intro stack
  rw [nested_append, hts, List.nil_append, hus]

/-- The loop over the items, by induction on the bound, which is never used up. -/
theorem series_counts {item : ParserM Value} (hitem : CountsValues o l d item) {bound : Nat}
    (hst : Looks o l c d st) (hroom : Room o l c bound) :
    Counts o l c d (fun _ ts c' st' => Closes s ts ∧ st' = ⟨c', none, d⟩)
      (series o l s item bound st) := by
  induction bound generalizing c st with
  | zero => exact absurd hroom.1 (Nat.lt_irrefl 0)
  | succ bound ih =>
    refine (leadOf_counts hst).bind fun tag ts₁ c₁ st₁ hts₁ hleaves₁ hst₁ => ?_
    refine (hitem c₁ st₁ hst₁).bind ?_
    rintro v ts₂ c₂ _ hts₂ hleaves₂ ⟨hne, rfl⟩
    have hlt : c₂.rest.length < bound + 1 :=
      (hts₁.append hts₂).length_rest_lt_room (by simp [hne]) hroom
    refine counts_advance (looks_none _ d) fun t c₃ hnext => ?_
    unfold separated
    by_cases hcomma : t.kind = .mark .comma
    · have hleaves₃ : Leaves [t] [] := fun stack => by rw [nested_cons, hcomma]; rfl
      have hfewer := Cursor.length_rest_lt hnext (by simp [hcomma])
      rw [if_pos hcomma]
      refine .behind (.single hnext) hleaves₃ ?_
      refine (ih (looks_none c₃ d) (room_of_lt (by omega))).bind_ok ?_
      rintro more ts₄ c₄ _ ⟨hclose, rfl⟩
      exact ⟨_, _, rfl, .behind hleaves₁ (.behind hleaves₂ (.behind hleaves₃ hclose)), rfl⟩
    · rw [if_neg hcomma]
      by_cases hclosing : t.kind = .mark s.closing
      · have hclose : Closes s [t] := fun stack => by
          rw [nested_cons, hclosing, Token.Kind.nest_closing, nested_nil]
        rw [if_pos hclosing]
        exact ⟨[t], c₃, .single hnext, .behind hleaves₁ (.behind hleaves₂ hclose), rfl⟩
      · rw [if_neg hclosing]
        exact counts_unexpected hnext _ _ nofun

theorem interior_counts {item : ParserM Value} (hitem : CountsValues o l (d + 1) item)
    (c : Cursor) :
    Counts o l c (d + 1) (fun _ ts c' st' => Closes s ts ∧ st' = ⟨c', none, d⟩)
      (interior o l s.closing (s.build []) (fun room => s.build <$> series o l s item room)
        ⟨c, none, d + 1⟩) := by
  refine counts_current (looks_none _ _) fun t c₁ hnext => ?_
  by_cases hclosing : t.kind = .mark s.closing
  · have hclose : Closes s [t] := fun stack => by
      rw [nested_cons, hclosing, Token.Kind.nest_closing, nested_nil]
    rw [if_pos hclosing, bind_ok (discard_ok (advance_ok (looks_some hnext _) hnext))]
    exact ⟨[t], c₁, .single hnext, hclose, rfl⟩
  · have hahead : roomAhead ⟨c₁, some t, d + 1⟩ =
        .ok (c₁.rest.length + 1) ⟨c₁, some t, d + 1⟩ := rfl
    have hroom : Room o l c (c₁.rest.length + 1) := by
      refine ⟨Nat.succ_pos _, fun t' c' h' => ?_⟩
      rw [hnext] at h'
      cases h'
      exact Nat.lt_succ_self _
    rw [if_neg hclosing, bind_ok hahead]
    refine (series_counts hitem (looks_some hnext _) hroom).map.bind_ok ?_
    rintro _ ts c₂ _ ⟨entries, rfl, hclose, rfl⟩
    exact ⟨_, _, rfl, hclose, rfl⟩

theorem structured_counts {item : ParserM Value} (hitem : CountsValues o l (d + 1) item)
    {offset : Nat} (hnext : Cursor.nextToken o l c = .ok ⟨.mark s.opening, offset⟩ c')
    (hst : Looks o l c d st) :
    Counts o l c d (Restored d) (structured o l s item st) := by
  unfold structured
  by_cases hd : d + 1 ≤ l.nestingDepth.val
  · have hinterior := interior_counts (s := s) hitem c'
    rw [bracketed_ok hst hnext hd]
    generalize interior o l s.closing (s.build []) _ _ = r at hinterior ⊢
    cases r with
    | ok v st' =>
      obtain ⟨ts, c'', hts, hclose, hst'⟩ := hinterior
      refine ⟨⟨.mark s.opening, offset⟩ :: ts, c'', .cons hnext hts, fun stack => ?_, by simp, hst'⟩
      rw [nested_cons, Token.Kind.nest_opening, hclose, List.nil_append]
    | error failure st' => exact HaltsAt.inside hnext hinterior
  · rw [bracketed_error hst hnext (Nat.lt_of_not_le hd)]
    exact haltsAt_bracket hnext rfl

theorem valueWith_counts {inner : Structure → ParserM Value} (hst : Looks o l c d st)
    (hinner : ∀ (s : Structure) (offset : Nat) (c' : Cursor),
      Cursor.nextToken o l c = .ok ⟨.mark s.opening, offset⟩ c' →
      Counts o l c d (Restored d) (inner s ⟨c', some ⟨.mark s.opening, offset⟩, d⟩)) :
    Counts o l c d (Restored d) (valueWith o l inner st) := by
  refine counts_current hst ?_
  rintro ⟨kind, offset⟩ c₁ hnext
  have scalar (v : Value) (hkind : Leaves [⟨kind, offset⟩] []) :
      Counts o l c d (Restored d)
        ((do discard (advance o l); return v : ParserM Value)
          ⟨c₁, some ⟨kind, offset⟩, d⟩) := by
    rw [bind_ok (discard_ok (advance_ok (looks_some hnext _) hnext))]
    exact ⟨[⟨kind, offset⟩], c₁, .single hnext, hkind, by simp, rfl⟩
  have refused (cause : Cause) (hcause : cause.kind = .grammar) :
      HaltsAt o l c d ⟨cause, offset⟩ ⟨c₁, some ⟨kind, offset⟩, d⟩ :=
    haltsAt_refused hnext hcause (by rintro _ ⟨⟩; rfl)
  cases kind with
  | string s => exact scalar (.string s) fun _ => rfl
  | number n => exact scalar (.number n) fun _ => rfl
  | bool b => exact scalar (.bool b) fun _ => rfl
  | null => exact scalar .null fun _ => rfl
  | eof => exact refused _ rfl
  | mark m =>
    cases m with
    | openBrace => exact hinner .object offset c₁ hnext
    | openBracket => exact hinner .array offset c₁ hnext
    | closeBrace => exact refused _ rfl
    | closeBracket => exact refused _ rfl
    | colon => exact refused _ rfl
    | comma => exact refused _ rfl

theorem exhausted_counts {offset : Nat}
    (hnext : Cursor.nextToken o l c = .ok ⟨.mark s.opening, offset⟩ c') (hst : Looks o l c d st) :
    Counts o l c d (Restored d) (exhausted o l st) := by
  unfold exhausted
  rw [bind_ok (advance_ok hst hnext)]
  by_cases hd : d + 1 ≤ l.nestingDepth.val
  · rw [bind_ok (enter_ok hd _)]
    exact haltsAt_bracket hnext rfl
  · rw [bind_error (enter_error (Nat.lt_of_not_le hd) _)]
    exact haltsAt_bracket hnext rfl

/-- A value, by induction on the levels left. -/
theorem value_counts (o : Options) (l : Limits) (levels d : Nat) :
    CountsValues o l d (value o l levels) := by
  induction levels generalizing d with
  | zero =>
    intro c st hst
    refine valueWith_counts hst fun s offset c' hnext => ?_
    exact exhausted_counts hnext (looks_some hnext d)
  | succ levels ih =>
    intro c st hst
    rw [value_succ]
    refine valueWith_counts hst fun s offset c' hnext => ?_
    exact structured_counts (ih (d + 1)) hnext (looks_some hnext d)

end Parser

end LocatedJson
