import LocatedJson.Proofs.Machine.Tokens
import LocatedJson.Proofs.Parsing.Whole

/-! The machine's parser follows the parser of values step by step. What has to be shown besides
is that no loop runs out of rounds: a round ends with a separator, and reading that takes a byte. -/
namespace LocatedJson

open Grammar

namespace Machine

variable {takes : Numeral → Bool} {c : Contents} {o : Options} {l : Limits} {st : Stage}

def Stage.state (c : Contents) (st : Stage) : Parser.State :=
  ⟨⟨st.pos, c.text.drop st.pos⟩, st.ahead, st.depth⟩

def Stage.left (c : Contents) (st : Stage) : Nat := (c.text.drop st.pos).length

section Following

variable {α β : Type}

/-- From a stage, the machine comes to the value and the state that the parser comes to, or to
its failure, or stalls at a number. -/
inductive Follows (takes : Numeral → Bool) (c : Contents) (m : Reading α) (p : ParserM α)
    (st : Stage) (post : α → Stage → Prop) : Prop where
  | value {a : α} {st' : Stage} (hp : p (st.state c) = .ok a (st'.state c))
      (hm : m st = .ok a st') (h : post a st')
  | failure {failure : Failure} {s : Parser.State} {st' : Stage}
      (hp : p (st.state c) = .error failure s)
      (hm : m st = .error (.failed failure.cause failure.offset) st')
  | stalls (h : Stalls takes c (m st))

theorem Follows.bind {m : Reading α} {p : ParserM α} {k : α → Reading β} {f : α → ParserM β}
    {post : α → Stage → Prop} {post' : β → Stage → Prop} (h : Follows takes c m p st post)
    (hk : ∀ a st', post a st' → Follows takes c (k a) (f a) st' post') :
    Follows takes c (m >>= k) (p >>= f) st post' := by
  cases h with
  | value hp hm ha =>
    cases hk _ _ ha with
    | value hp' hm' hb => exact .value ((Parser.bind_ok hp).trans hp') ((bind_ok hm).trans hm') hb
    | failure hp' hm' => exact .failure ((Parser.bind_ok hp).trans hp') ((bind_ok hm).trans hm')
    | stalls hstalls =>
      obtain ⟨hresists, st', hk⟩ := hstalls
      exact .stalls ⟨hresists, st', (bind_ok hm).trans hk⟩
  | failure hp hm => exact .failure (Parser.bind_error hp) (bind_error hm)
  | stalls hstalls => exact .stalls (hstalls.bind k)

theorem Follows.imp {m : Reading α} {p : ParserM α} {post post' : α → Stage → Prop}
    (h : Follows takes c m p st post) (hpost : ∀ a st', post a st' → post' a st') :
    Follows takes c m p st post' := by
  cases h with
  | value hp hm ha => exact .value hp hm (hpost _ _ ha)
  | failure hp hm => exact .failure hp hm
  | stalls hstalls => exact .stalls hstalls

theorem Follows.of_eq {m m' : Reading α} {p p' : ParserM α} {post : α → Stage → Prop}
    (h : Follows takes c m' p' st post) (hm : m st = m' st)
    (hp : p (st.state c) = p' (st.state c)) : Follows takes c m p st post := by
  cases h with
  | value hp' hm' ha => exact .value (hp.trans hp') (hm.trans hm') ha
  | failure hp' hm' => exact .failure (hp.trans hp') (hm.trans hm')
  | stalls hstalls => exact .stalls (by rwa [hm])

theorem follows_pure {a : α} {post : α → Stage → Prop} (h : post a st) :
    Follows takes c (pure a) (pure a) st post := .value rfl rfl h

theorem follows_fail (cause : Cause) (offset : Nat) (post : α → Stage → Prop) :
    Follows takes c (failAt cause offset) (Parser.fail cause offset) st post := .failure rfl rfl

theorem Follows.ite {P : Prop} [Decidable P] {m m' : Reading α} {p p' : ParserM α}
    {post : α → Stage → Prop} (ht : P → Follows takes c m p st post)
    (he : ¬ P → Follows takes c m' p' st post) :
    Follows takes c (if P then m else m') (if P then p else p') st post := by
  by_cases h : P
  · rw [if_pos h, if_pos h]
    exact ht h
  · rw [if_neg h, if_neg h]
    exact he h

end Following

section Values

open Structure (Tag Entry)

theorem current_ok {pos pos' : Nat} {t : Token} (h : nextToken takes c o l pos = .ok t pos')
    (depth : Nat) : current takes c o l ⟨pos, none, depth⟩ = .ok t ⟨pos', some t, depth⟩ := by
  simp [current, bind, EStateM.bind, get, getThe, MonadStateOf.get, EStateM.get, atPosition, h,
    modify, modifyGet, MonadStateOf.modifyGet, EStateM.modifyGet, pure, EStateM.pure]

theorem current_error {pos pos' : Nat} {halt : Halt}
    (h : nextToken takes c o l pos = .error halt pos') (depth : Nat) :
    current takes c o l ⟨pos, none, depth⟩ = .error halt ⟨pos', none, depth⟩ := by
  simp [current, bind, EStateM.bind, get, getThe, MonadStateOf.get, EStateM.get, atPosition, h]

/-- Looking at a token takes nothing back, and takes a byte if the token is new. -/
theorem follows_current (o : Options) (l : Limits) (st : Stage) :
    Follows takes c (current takes c o l) (Parser.current o l) st fun t st' =>
      st'.left c ≤ st.left c ∧ (st.ahead = none → t.kind ≠ .eof → st'.left c < st.left c) := by
  obtain ⟨pos, ahead, depth⟩ := st
  cases ahead with
  | some t => exact .value rfl rfl ⟨le_refl _, nofun⟩
  | none =>
    have hlooks := Parser.looks_none (o := o) (l := l) ⟨pos, c.text.drop pos⟩ depth
    rcases nextToken_agrees (c := c) takes o l pos with hnext | ⟨hresists, stop, hmachine⟩
    case inr => exact .stalls ⟨hresists, _, current_error hmachine depth⟩
    cases htoken : Cursor.nextToken o l ⟨pos, c.text.drop pos⟩ with
    | ok t cursor =>
      rw [htoken] at hnext
      obtain ⟨hmachine, hcursor⟩ := hnext
      have hle := Cursor.length_rest_le_of_nextToken htoken
      have hlt := Cursor.length_rest_lt htoken
      rw [hcursor] at hle hlt
      have hcurrent := Parser.current_ok hlooks htoken
      rw [hcursor] at hcurrent
      refine .value ?_ (current_ok hmachine depth) ⟨hle, fun _ => hlt⟩
      exact hcurrent
    | error failure cursor =>
      rw [htoken] at hnext
      obtain ⟨stop, hmachine⟩ := hnext
      exact .failure (Parser.current_error hlooks htoken) (current_error hmachine depth)

theorem follows_advance (o : Options) (l : Limits) (st : Stage) :
    Follows takes c (advance takes c o l) (Parser.advance o l) st fun t st' =>
      st'.ahead = none ∧ st'.left c ≤ st.left c ∧
        (st.ahead = none → t.kind ≠ .eof → st'.left c < st.left c) := by
  apply (follows_current o l st).bind
  intro t st' hleft
  exact .value rfl rfl ⟨rfl, hleft⟩

theorem follows_discard_advance (o : Options) (l : Limits) (st : Stage) :
    Follows takes c (discard (advance takes c o l)) (discard (Parser.advance o l)) st fun _ st' =>
      st'.ahead = none ∧ st'.left c ≤ st.left c := by
  have h : Follows takes c (advance takes c o l >>= fun _ => pure ())
      (Parser.advance o l >>= fun _ => pure ()) st fun _ st' =>
        st'.ahead = none ∧ st'.left c ≤ st.left c := by
    apply (follows_advance o l st).bind
    intro t st' hst'
    exact follows_pure ⟨hst'.1, hst'.2.1⟩
  exact h

theorem enter_some {cause : Cause} (h : l.violation? .nestingDepth (st.depth + 1) = some cause)
    (offset : Nat) :
    enter l offset st = .error (.failed cause offset) { st with depth := st.depth + 1 } := by
  simp [enter, h, bind, EStateM.bind, get, getThe, MonadStateOf.get, EStateM.get, modify, modifyGet,
    MonadStateOf.modifyGet, EStateM.modifyGet, failAt, throw, throwThe, MonadExceptOf.throw,
    EStateM.throw]

theorem enter_none (h : l.violation? .nestingDepth (st.depth + 1) = none) (offset : Nat) :
    enter l offset st = .ok () { st with depth := st.depth + 1 } := by
  simp [enter, h, bind, EStateM.bind, get, getThe, MonadStateOf.get, EStateM.get, modify, modifyGet,
    MonadStateOf.modifyGet, EStateM.modifyGet, pure, EStateM.pure]

theorem follows_enter (l : Limits) (offset : Nat) (st : Stage) :
    Follows takes c (enter l offset) (Parser.enter l offset) st fun _ st' =>
      st'.left c = st.left c := by
  cases h : l.violation? .nestingDepth (st.depth + 1) with
  | some cause =>
    obtain ⟨bound, hbound, hlt, rfl⟩ := Limits.violation?_eq_some h
    cases hbound
    exact .failure (Parser.enter_error (s := st.state c) hlt offset) (enter_some h offset)
  | none =>
    have hle : st.depth + 1 ≤ l.nestingDepth.val := Limits.violation?_eq_none_iff.1 h _ rfl
    exact .value (Parser.enter_ok (s := st.state c) hle offset) (enter_none h offset) rfl

theorem follows_leave (st : Stage) :
    Follows takes c leave Parser.leave st fun _ st' =>
      st'.ahead = st.ahead ∧ st'.left c = st.left c :=
  .value rfl rfl ⟨rfl, rfl⟩

theorem follows_unexpected {α : Type} (token : Token) (wanted : Wanted) (inside : Structure)
    (post : α → Stage → Prop) :
    Follows takes c (unexpected token wanted inside) (Parser.unexpected token wanted inside) st
      post := by
  unfold unexpected Parser.unexpected
  cases token.kind with
  | eof => exact follows_fail _ _ _
  | mark m => exact follows_fail _ _ _
  | string s => exact follows_fail _ _ _
  | number n => exact follows_fail _ _ _
  | bool b => exact follows_fail _ _ _
  | null => exact follows_fail _ _ _

theorem follows_lead (o : Options) (l : Limits) (s : Structure) (st : Stage) :
    Follows takes c (lead takes c o l s) (Parser.leadOf o l s) st fun _ st' =>
      st'.left c ≤ st.left c := by
  cases s with
  | array =>
    apply (follows_current o l st).bind
    intro token st' hleft
    apply Follows.ite
    · intro _
      exact follows_fail _ _ _
    · intro _
      exact follows_pure hleft.1
  | object =>
    apply (follows_current o l st).bind
    intro token st₁ hleft₁
    cases hkind : token.kind with
    | string key =>
      apply (follows_discard_advance o l st₁).bind
      intro _ st₂ hleft₂
      apply (follows_current o l st₂).bind
      intro colon st₃ hleft₃
      apply Follows.ite
      · intro _
        apply (follows_discard_advance o l st₃).bind
        intro _ st₄ hleft₄
        exact follows_pure (by omega)
      · intro _
        exact follows_unexpected _ _ _ _
    | eof => exact follows_unexpected _ _ _ _
    | mark m => exact follows_unexpected _ _ _ _
    | number n => exact follows_unexpected _ _ _ _
    | bool b => exact follows_unexpected _ _ _ _
    | null => exact follows_unexpected _ _ _ _

def FollowsValue (takes : Numeral → Bool) (c : Contents) (m : Reading Value)
    (p : ParserM Value) : Prop :=
  ∀ st, Follows takes c m p st fun _ st' => st'.ahead = none ∧ st'.left c ≤ st.left c

/-- A round ends with a separator that had not been looked at, so that fewer bytes are ahead of
the next round. -/
theorem follows_items {item : Reading Value} {item' : ParserM Value}
    (hitem : FollowsValue takes c item item') (s : Structure) (rounds bound : Nat) (st : Stage)
    (hrounds : st.left c < rounds) (hbound : st.left c < bound) :
    Follows takes c (items takes c o l s item rounds) (Parser.series o l s item' bound) st
      fun _ st' => st'.ahead = none ∧ st'.left c ≤ st.left c := by
  induction rounds generalizing bound st with
  | zero => exact absurd hrounds (Nat.not_lt_zero _)
  | succ rounds ih =>
    obtain ⟨bound, rfl⟩ := Nat.exists_eq_succ_of_ne_zero (Nat.ne_zero_of_lt hbound)
    apply (follows_lead o l s st).bind
    intro tag st₁ hleft₁
    apply (hitem st₁).bind
    intro value st₂ hleft₂
    apply (follows_advance o l st₂).bind
    intro separator st₃ hleft₃
    apply Follows.ite
    · intro hcomma
      have hlt : st₃.left c < st₂.left c := hleft₃.2.2 hleft₂.1 (by rw [hcomma]; nofun)
      apply (ih bound st₃ (by omega) (by omega)).bind
      intro more st₄ hleft₄
      exact follows_pure ⟨hleft₄.1, by omega⟩
    · intro _
      apply Follows.ite
      · intro _
        exact follows_pure ⟨hleft₃.1, by omega⟩
      · intro _
        exact follows_unexpected _ _ _ _

theorem follows_structured {item : Reading Value} {item' : ParserM Value}
    (hitem : FollowsValue takes c item item') (s : Structure) :
    FollowsValue takes c (structured takes c o l s item) (Parser.structured o l s item') := by
  intro st
  apply (follows_advance o l st).bind
  intro opening st₁ hleft₁
  apply (follows_enter l opening.offset st₁).bind
  intro _ st₂ hleft₂
  apply (follows_current o l st₂).bind
  intro first st₃ hleft₃
  apply Follows.ite
  · intro _
    apply (follows_discard_advance o l st₃).bind
    intro _ st₄ hleft₄
    apply (follows_leave st₄).bind
    intro _ st₅ hleft₅
    exact follows_pure ⟨hleft₅.1.trans hleft₄.1, by omega⟩
  · intro _
    have hroom : Parser.roomAhead (st₃.state c) = .ok (st₃.left c + 1) (st₃.state c) := rfl
    have hsize : st₃.left c < c.size + 1 := by
      rw [Stage.left, List.length_drop, Contents.length_text]
      omega
    have hitems : Follows takes c
        (items takes c o l s item (c.size + 1) >>= fun entries => leave >>= fun _ =>
          pure (s.build entries))
        (Parser.series o l s item' (st₃.left c + 1) >>= fun entries => Parser.leave >>= fun _ =>
          pure (s.build entries)) st₃ fun _ st' => st'.ahead = none ∧ st'.left c ≤ st.left c := by
      apply (follows_items hitem s _ _ st₃ hsize (Nat.lt_succ_self _)).bind
      intro entries st₄ hleft₄
      apply (follows_leave st₄).bind
      intro _ st₅ hleft₅
      exact follows_pure ⟨hleft₅.1.trans hleft₄.1, by omega⟩
    refine hitems.of_eq rfl ?_
    rw [Parser.bind_ok hroom, bind_map_left]

theorem follows_exhausted :
    FollowsValue takes c (exhausted takes c o l) (Parser.exhausted o l) := by
  intro st
  apply (follows_advance o l st).bind
  intro opening st₁ _
  apply (follows_enter l opening.offset st₁).bind
  intro _ st₂ _
  exact .failure rfl rfl

theorem follows_valueWith {inner : Structure → Reading Value}
    {inner' : Structure → ParserM Value} (h : ∀ s, FollowsValue takes c (inner s) (inner' s)) :
    FollowsValue takes c (valueWith takes c o l inner) (Parser.valueWith o l inner') := by
  intro st
  apply (follows_current o l st).bind
  intro token st₁ hleft₁
  have scalar (v : Value) : Follows takes c (do discard (advance takes c o l); return v)
      (do discard (Parser.advance o l); return v) st₁ fun _ st' =>
        st'.ahead = none ∧ st'.left c ≤ st.left c := by
    apply (follows_discard_advance o l st₁).bind
    intro _ st₂ hleft₂
    exact follows_pure ⟨hleft₂.1, by omega⟩
  have nested (s : Structure) : Follows takes c (inner s) (inner' s) st₁ fun _ st' =>
      st'.ahead = none ∧ st'.left c ≤ st.left c := by
    apply (h s st₁).imp
    intro _ st₂ hleft₂
    exact ⟨hleft₂.1, by omega⟩
  cases token.kind with
  | string s => exact scalar (.string s)
  | number n => exact scalar (.number n)
  | bool b => exact scalar (.bool b)
  | null => exact scalar .null
  | eof => exact follows_fail _ _ _
  | mark m =>
    cases m with
    | openBrace => exact nested .object
    | openBracket => exact nested .array
    | closeBrace => exact follows_fail _ _ _
    | closeBracket => exact follows_fail _ _ _
    | colon => exact follows_fail _ _ _
    | comma => exact follows_fail _ _ _

theorem follows_value (levels : Nat) :
    FollowsValue takes c (value takes c o l levels) (Parser.value o l levels) := by
  induction levels with
  | zero => exact follows_valueWith fun _ => follows_exhausted
  | succ levels ih =>
    rw [Parser.value_succ]
    exact follows_valueWith fun s => follows_structured ih s

theorem follows_ending (v : Value) (st : Stage) :
    Follows takes c (do
        discard (atPosition (passRun c Byte.isBlank))
        let st ← get
        if c.size ≤ st.pos then return v else failAt .trailingData st.pos)
      (Parser.ending v) st fun _ _ => True := by
  have hrun := passRun_eq (rfl : c.text.drop st.pos = _) Byte.isBlank
  generalize hn : ((c.text.drop st.pos).takeWhile Byte.isBlank).length = n at hrun
  have hskip : Follows takes c (discard (atPosition (passRun c Byte.isBlank)))
      (Parser.atCursor Cursor.skipBlanks) st fun _ _ => True := by
    have hmove : atPosition (passRun c Byte.isBlank) st = .ok n { st with pos := st.pos + n } := by
      rw [atPosition, hrun]
    have hskipped : Parser.atCursor Cursor.skipBlanks (st.state c) =
        .ok () (Stage.state c { st with pos := st.pos + n }) := by
      simp only [Stage.state, Parser.atCursor, Cursor.skipBlanks, Cursor.advance, hn,
        List.drop_drop]
    exact .value hskipped (discard_ok hmove) trivial
  apply hskip.bind
  intro _ st' _
  have hend : (st'.state c).atEnd = decide (c.size ≤ st'.pos) := by
    rw [Bool.eq_iff_iff, decide_eq_true_iff, Stage.state, Cursor.atEnd, List.isEmpty_iff,
      List.drop_eq_nil_iff, Contents.length_text]
  have hget : Follows takes c (if c.size ≤ st'.pos then return v else failAt .trailingData st'.pos)
      (if (st'.state c).atEnd then return v else Parser.fail .trailingData st'.pos) st'
      fun _ _ => True := by
    simp only [hend, decide_eq_true_eq]
    apply Follows.ite
    · intro _
      exact follows_pure trivial
    · intro _
      exact follows_fail _ _ _
  exact hget.of_eq rfl rfl

theorem document_agrees (takes : Numeral → Bool) (c : Contents) (o : Options) (l : Limits)
    (levels : Nat) :
    (match parseText o l levels c.text with
      | .ok v => ∃ st, document takes c o l levels {} = .ok v st
      | .error failure => ∃ st,
          document takes c o l levels {} = .error (.failed failure.cause failure.offset) st) ∨
      Stalls takes c (document takes c o l levels {}) := by
  unfold document
  cases hsize : l.violation? .inputSize c.size with
  | some cause =>
    obtain ⟨bound, hbound, hlt, rfl⟩ := Limits.violation?_eq_some hsize
    rw [parseText_oversize hbound (by rwa [Contents.length_text]), Contents.length_text]
    exact .inl ⟨_, rfl⟩
  | none =>
    rw [← Contents.length_text, Limits.violation?_eq_none_iff] at hsize
    rw [parseText_within hsize]
    have hwhole : Follows takes c _ (Parser.topValue o l levels >>= Parser.ending) {}
        fun _ _ => True := (follows_value levels {}).bind fun v st _ => follows_ending v st
    have hstart : Stage.state c {} = ⟨.behind [] c.text, none, 0⟩ := rfl
    cases hwhole with
    | value hp hm _ =>
      rw [hstart] at hp
      rw [hp]
      exact .inl ⟨_, hm⟩
    | failure hp hm =>
      rw [hstart] at hp
      rw [hp]
      exact .inl ⟨_, hm⟩
    | stalls hstalls => exact .inr hstalls

theorem document_eq (c : Contents) (o : Options) (l : Limits) (levels : Nat) :
    match parseText o l levels c.text with
    | .ok v => ∃ st, document (fun _ => true) c o l levels {} = .ok v st
    | .error failure => ∃ st, document (fun _ => true) c o l levels {} =
        .error (.failed failure.cause failure.offset) st :=
  (document_agrees (fun _ => true) c o l levels).resolve_right fun hstalls =>
    not_resists_true c.text hstalls.1

end Values

end Machine

end LocatedJson
