import LocatedJson.Proofs.Parsing.Whole
import LocatedJson.Proofs.Reports
import LocatedJson.Proofs.Routes.Program

/-! A parse that makes its errors where they are raised ends as the parse that tells failures
alone: what errors look like has no influence on what is read, and every error of the grammar is
the lexer's, every error of a limit the validator's. -/
namespace LocatedJson

open Grammar

namespace Routes

variable {ε α β σ : Type} {e : Routes ε} {o : Options} {l : Limits}

def errorOf (e : Routes ε) (failure : Failure) : ε :=
  match failure.cause.kind with
  | .grammar => e.lexer failure.cause failure.offset
  | .limit => e.validator failure.cause failure.offset

theorem errorOf_grammar {cause : Cause} (h : cause.kind = .grammar) (offset : Nat) :
    e.errorOf ⟨cause, offset⟩ = e.lexer cause offset := by
  simp only [errorOf, h]

theorem errorOf_limit {cause : Cause} (h : cause.kind = .limit) (offset : Nat) :
    e.errorOf ⟨cause, offset⟩ = e.validator cause offset := by
  simp only [errorOf, h]

/-! One program tells the failures of another. -/

/-- The programs end alike, an error standing for each failure. -/
def Tells (e : Routes ε) (m : EStateM ε σ α) (p : EStateM Failure σ α) : Prop :=
  ∀ s, m s = match p s with
    | .ok a s' => .ok a s'
    | .error failure s' => .error (e.errorOf failure) s'

theorem tells_pure (a : α) : e.Tells (pure a : EStateM ε σ α) (pure a) := fun _ => rfl

theorem tells_get : e.Tells (get : EStateM ε σ σ) get := fun _ => rfl

theorem tells_modify (f : σ → σ) : e.Tells (modify f : EStateM ε σ Unit) (modify f) := fun _ => rfl

theorem tells_lexer {cause : Cause} (h : cause.kind = .grammar) (offset : Nat) :
    e.Tells (throw (e.lexer cause offset) : EStateM ε σ α) (throw ⟨cause, offset⟩) := by
  intro s
  rw [← errorOf_grammar h]
  rfl

theorem tells_validator {cause : Cause} (h : cause.kind = .limit) (offset : Nat) :
    e.Tells (throw (e.validator cause offset) : EStateM ε σ α) (throw ⟨cause, offset⟩) := by
  intro s
  rw [← errorOf_limit h]
  rfl

namespace Tells

theorem bind {m : EStateM ε σ α} {p : EStateM Failure σ α} {k : α → EStateM ε σ β}
    {f : α → EStateM Failure σ β} (h : e.Tells m p) (hk : ∀ a, e.Tells (k a) (f a)) :
    e.Tells (m >>= k) (p >>= f) := by
  intro s
  have hs := h s
  cases hp : p s with
  | ok a s' =>
    rw [hp] at hs
    simp only [Bind.bind, EStateM.bind, hs, hp]
    exact hk a s'
  | error failure s' =>
    rw [hp] at hs
    simp only [Bind.bind, EStateM.bind, hs, hp]

theorem map {m : EStateM ε σ α} {p : EStateM Failure σ α} (g : α → β) (h : e.Tells m p) :
    e.Tells (g <$> m) (g <$> p) := by
  intro s
  have hs := h s
  cases hp : p s <;> rw [hp] at hs <;> simp only [Functor.map, EStateM.map, hs, hp]

theorem ite {P : Prop} [Decidable P] {m m' : EStateM ε σ α} {p p' : EStateM Failure σ α}
    (h : e.Tells m p) (h' : e.Tells m' p') :
    e.Tells (if P then m else m') (if P then p else p') := by
  split
  · exact h
  · exact h'

end Tells

/-! Lexemes. -/

def told (e : Routes ε) (c : Cursor) : Scanned α → EStateM.Result ε Cursor α
  | .ok (a, n) => .ok a (c.advance n)
  | .error f => .error (e.errorOf ⟨f.cause, c.pos + f.offset⟩) (c.advance f.stop)

theorem tells_read {m : EStateM ε Cursor α} {scan : Scan α}
    (h : ∀ c : Cursor, m c = e.told c (scan c.rest)) : e.Tells m (Cursor.read scan) := by
  intro c
  rw [h c]
  unfold Cursor.read told
  cases scan c.rest <;> rfl

/-- A scan that never complains of a limit is the lexer's alone. -/
theorem read_eq {scan : Scan α} {c : Cursor}
    (h : ∀ f, scan c.rest = .error f → f.cause.kind = .grammar) :
    e.read scan c = e.told c (scan c.rest) := by
  unfold read told
  cases hscan : scan c.rest with
  | ok result => rfl
  | error f =>
    dsimp only
    rw [errorOf_grammar (h f hscan)]

theorem kind_violation {m : Measure} {n : Nat} {cause : Cause}
    (h : l.violation? m n = some cause) : cause.kind = .limit := by
  obtain ⟨bound, -, -, rfl⟩ := Limits.violation?_eq_some h
  rfl

theorem bind_ok {m : EStateM ε σ α} {k : α → EStateM ε σ β} {s s' : σ} {a : α}
    (h : m s = .ok a s') : (m >>= k) s = k a s' := by
  simp only [bind, EStateM.bind, h]

theorem bind_error {m : EStateM ε σ α} {k : α → EStateM ε σ β} {s s' : σ} {x : ε}
    (h : m s = .error x s') : (m >>= k) s = .error x s' := by
  simp only [bind, EStateM.bind, h]

theorem get_bind (k : σ → EStateM ε σ α) (s : σ) : (get >>= k) s = k s s := rfl

theorem modify_bind (f : σ → σ) (k : Unit → EStateM ε σ α) (s : σ) :
    (modify f >>= k) s = k () (f s) := rfl

theorem validate_eq (e : Routes ε) (l : Limits) (measure : Measure) (n offset : Nat) (s : σ) :
    e.validate l measure n offset s =
      match l.violation? measure n with
      | some cause => .error (e.errorOf ⟨cause, offset⟩) s
      | none => .ok () s := by
  unfold validate
  cases h : l.violation? measure n with
  | none => rfl
  | some cause =>
    dsimp only
    rw [errorOf_limit (kind_violation h)]
    rfl

theorem validate_bind (measure : Measure) (n stop : Nat) (c : Cursor)
    (k : Unit → EStateM ε Cursor α) :
    (e.validate l measure n c.pos >>= k) (c.advance stop) =
      match l.violation? measure n with
      | some cause => e.told c (.error ⟨cause, 0, stop⟩)
      | none => k () (c.advance stop) := by
  have hcheck := e.validate_eq l measure n c.pos (c.advance stop)
  cases h : l.violation? measure n with
  | some cause =>
    rw [h] at hcheck
    rw [bind_error hcheck]
    rfl
  | none =>
    rw [h] at hcheck
    rw [bind_ok hcheck]

theorem advance_advance (c : Cursor) (m n : Nat) :
    (c.advance m).advance n = c.advance (m + n) := by
  simp only [Cursor.advance, List.drop_drop, Nat.add_assoc]

theorem readString_eq {quote : Byte} {c : Cursor} {bytes : List Byte}
    (hc : c.rest = quote :: bytes) :
    e.readString o l quote c = e.told c (StringLiteral.scan o l quote bytes) := by
  have hrest : (c.advance 1).rest = bytes := by
    simp [Cursor.advance, hc]
  have hbody : e.read (StringLiteral.scanBody quote) (c.advance 1) =
      e.told (c.advance 1) (StringLiteral.scanBody quote bytes) := by
    rw [← hrest]
    apply read_eq
    intro f hf
    exact Cause.kind_of_isSpelling (StringLiteral.blames_scanBody quote _ f hf)
  unfold readString StringLiteral.scan
  rw [get_bind]
  split
  · rfl
  · cases hscan : StringLiteral.scanBody quote bytes with
    | error f =>
      rw [hscan, told, advance_advance] at hbody
      rw [modify_bind, bind_error hbody]
      simp only [told, Fault.shift, Cursor.advance, Nat.add_assoc]
    | ok result =>
      obtain ⟨text, n⟩ := result
      rw [hscan, told, advance_advance] at hbody
      rw [modify_bind, bind_ok hbody, validate_bind]
      dsimp only
      cases l.violation? .stringLength text.length <;> rfl

theorem readNumber_eq (c : Cursor) :
    e.readNumber o l c = e.told c (Number.scan o l c.rest) := by
  have hnumeral : e.read (Numeral.scan o) c = e.told c (Numeral.scan o c.rest) := by
    apply read_eq
    intro f hf
    exact Cause.kind_of_isSpelling
      (Cause.isSpelling_of_isNotation (Numeral.blames_scan o c.rest f hf))
  unfold readNumber Number.scan
  rw [get_bind]
  cases SpecialNumber.ofFront? c.rest with
  | some special =>
    dsimp only
    split <;> rfl
  | none =>
    dsimp only
    cases hscan : Numeral.scan o c.rest with
    | error f =>
      rw [hscan] at hnumeral
      rw [bind_error hnumeral]
      rfl
    | ok result =>
      obtain ⟨numeral, n⟩ := result
      rw [hscan] at hnumeral
      have hlength : (c.advance n).pos - c.pos = n := Nat.add_sub_cancel_left _ _
      rw [bind_ok hnumeral, get_bind, hlength, validate_bind]
      dsimp only
      cases l.violation? .numberLength n with
      | some cause => rfl
      | none =>
        dsimp only
        split <;> rfl

theorem map_told {c : Cursor} {m : EStateM ε Cursor α} {r : Scanned α} (h : m c = e.told c r)
    (g : α → β) : (g <$> m) c = e.told c (r.map fun (a, n) => (g a, n)) := by
  cases r with
  | ok result => simp only [Functor.map, EStateM.map, h, told, Except.map]
  | error f => simp only [Functor.map, EStateM.map, h, told, Except.map]

theorem readToken_eq (c : Cursor) :
    e.readToken o l c = e.told c (Token.Kind.scan o l c.rest) := by
  unfold readToken Token.Kind.scan
  rw [get_bind]
  cases hrest : c.rest with
  | nil => rfl
  | cons b rest =>
    dsimp only
    cases Mark.ofByte? b with
    | some m => rfl
    | none =>
      dsimp only
      split
      · exact map_told (readString_eq hrest) _
      · split
        · have hnumber := map_told (readNumber_eq (e := e) (o := o) (l := l) c) Token.Kind.number
          rw [hrest] at hnumber
          exact hnumber
        · split
          · rw [← hrest]
            apply read_eq
            intro f hf
            unfold Token.Kind.scanWord at hf
            split at hf
            · cases hf
            · cases hf
              rfl
          · rfl

theorem tells_nextToken : e.Tells (e.nextToken o l) (Cursor.nextToken o l) := by
  apply (tells_modify Cursor.skipped).bind
  intro _
  apply tells_get.bind
  intro start
  apply (tells_read readToken_eq).bind
  intro kind
  exact tells_pure _

/-! The grammar. -/

theorem tells_atCursor {m : EStateM ε Cursor α} {work : CursorM α} (h : e.Tells m work) :
    e.Tells (atCursor m) (Parser.atCursor work) := by
  intro s
  have hs := h s.toCursor
  unfold atCursor Parser.atCursor
  cases hwork : work s.toCursor <;> rw [hwork] at hs <;> simp only [hs]

theorem tells_current : e.Tells (e.current o l) (Parser.current o l) := by
  apply tells_get.bind
  intro s
  cases s.ahead with
  | some token => exact tells_pure token
  | none =>
    apply (tells_atCursor tells_nextToken).bind
    intro token
    apply (tells_modify _).bind
    intro _
    exact tells_pure token

theorem tells_advance : e.Tells (e.advance o l) (Parser.advance o l) := by
  apply tells_current.bind
  intro token
  apply (tells_modify _).bind
  intro _
  exact tells_pure token

theorem tells_validate (measure : Measure) (n offset : Nat) :
    e.Tells (e.validate l measure n offset) (Parser.checkLimit l measure n offset) := by
  intro s
  rw [validate_eq]
  unfold Parser.checkLimit
  cases l.violation? measure n <;> rfl

theorem tells_enter (offset : Nat) : e.Tells (e.enter l offset) (Parser.enter l offset) := by
  apply tells_get.bind
  intro s
  apply (tells_modify _).bind
  intro _
  exact tells_validate .nestingDepth (s.depth + 1) offset

theorem tells_leave : e.Tells leave Parser.leave := tells_modify _

theorem tells_unexpected (token : Token) (wanted : Wanted) (inside : Structure) :
    e.Tells (e.unexpected token wanted inside : EStateM ε Parser.State α)
      (Parser.unexpected token wanted inside) := by
  unfold unexpected Parser.unexpected
  cases token.kind with
  | eof => exact tells_lexer rfl _
  | _ => exact tells_lexer rfl _

theorem tells_lead (s : Structure) : e.Tells (e.lead o l s) (Parser.leadOf o l s) := by
  cases s with
  | array =>
    apply tells_current.bind
    intro token
    exact .ite (tells_lexer rfl _) (tells_pure _)
  | object =>
    apply tells_current.bind
    intro token
    cases token.kind with
    | string key =>
      apply (tells_advance.map _).bind
      intro _
      apply tells_current.bind
      intro colon
      apply Tells.ite
      · apply (tells_advance.map _).bind
        intro _
        exact tells_pure key
      · exact tells_unexpected _ _ _
    | _ => exact tells_unexpected _ _ _

theorem tells_items (s : Structure) {item : EStateM ε Parser.State Value} {item' : ParserM Value}
    (hitem : e.Tells item item') (bound : Nat) :
    e.Tells (e.items o l s item bound) (Parser.series o l s item' bound) := by
  induction bound with
  | zero =>
    apply tells_get.bind
    intro here
    exact tells_lexer rfl _
  | succ bound ih =>
    apply (tells_lead s).bind
    intro tag
    apply hitem.bind
    intro value
    apply tells_advance.bind
    intro separator
    apply Tells.ite
    · apply ih.bind
      intro more
      exact tells_pure _
    · exact .ite (tells_pure _) (tells_unexpected _ _ _)

theorem tells_structured (s : Structure) {item : EStateM ε Parser.State Value}
    {item' : ParserM Value} (hitem : e.Tells item item') :
    e.Tells (e.structured o l s item) (Parser.structured o l s item') := by
  apply tells_advance.bind
  intro opening
  apply (tells_enter opening.offset).bind
  intro _
  apply tells_current.bind
  intro first
  apply Tells.ite
  · apply (tells_advance.map _).bind
    intro _
    apply tells_leave.bind
    intro _
    exact tells_pure _
  · apply tells_get.bind
    intro here
    apply ((tells_items s hitem _).map _).bind
    intro value
    apply tells_leave.bind
    intro _
    exact tells_pure value

theorem tells_exhausted : e.Tells (e.exhausted o l) (Parser.exhausted o l) := by
  apply tells_advance.bind
  intro opening
  apply (tells_enter opening.offset).bind
  intro _
  apply tells_get.bind
  intro s
  exact tells_validator rfl _

theorem tells_valueWith {inner : Structure → EStateM ε Parser.State Value}
    {inner' : Structure → ParserM Value} (h : ∀ s, e.Tells (inner s) (inner' s)) :
    e.Tells (e.valueWith o l inner) (Parser.valueWith o l inner') := by
  have scalar (v : Value) : e.Tells (do discard (e.advance o l); return v)
      (do discard (Parser.advance o l); return v) := by
    apply (tells_advance.map _).bind
    intro _
    exact tells_pure v
  apply tells_current.bind
  intro token
  cases token.kind with
  | string s => exact scalar (.string s)
  | number n => exact scalar (.number n)
  | bool b => exact scalar (.bool b)
  | null => exact scalar .null
  | eof => exact tells_lexer rfl _
  | mark m =>
    cases m with
    | openBrace => exact h .object
    | openBracket => exact h .array
    | _ => exact tells_lexer rfl _

theorem tells_value (levels : Nat) : e.Tells (e.value o l levels) (Parser.value o l levels) := by
  induction levels with
  | zero => exact tells_valueWith fun _ => tells_exhausted
  | succ levels ih =>
    rw [Parser.value_succ]
    exact tells_valueWith fun s => tells_structured s ih

theorem tells_document (levels size : Nat) :
    e.Tells (e.document o l levels size) (Parser.document o l levels size) := by
  apply (tells_modify _).bind
  intro _
  apply (tells_validate .inputSize size 0).bind
  intro _
  apply (tells_value levels).bind
  intro value
  apply (tells_modify _).bind
  intro _
  apply tells_get.bind
  intro s
  exact .ite (tells_pure value) (tells_lexer rfl _)

theorem parse_eq (e : Routes ε) (o : Options) (l : Limits) (levels : Nat) (text : List Byte) :
    e.parse o l levels text = (parseText o l levels text).mapError e.errorOf := by
  unfold parse parseText
  rw [tells_document levels text.length (.start text)]
  cases Parser.document o l levels text.length (.start text) <;> rfl

def reports (source : Source) (lexer validator : Reporting) :
    Routes (Except DisplayFault Report) where
  lexer cause offset :=
    Report.build source lexer.tabSize.val lexer.withExcerpt .grammar cause.message offset
  validator cause offset :=
    Report.build source validator.tabSize.val validator.withExcerpt .limit cause.message offset

theorem errorOf_reports (source : Source) (lexer validator : Reporting) (failure : Failure) :
    (reports source lexer validator).errorOf failure =
      Report.ofFailure source (if failure.cause.kind = .limit then validator else lexer)
        failure := by
  obtain ⟨cause, offset⟩ := failure
  cases hkind : cause.kind with
  | grammar =>
    rw [errorOf_grammar hkind, if_neg nofun, Report.ofFailure, Report.ofCause, hkind]
    rfl
  | limit =>
    rw [errorOf_limit hkind, if_pos rfl, Report.ofFailure, Report.ofCause, hkind]
    rfl

/-- A parser hands the settings of its configuration on to its lexer and to its validator. -/
def ofConfig (source : Source) (config : Config) : Routes (Except DisplayFault Report) :=
  reports source config.reporting config.reporting

end Routes

def Source.raise (s : Source) (c : Contents) (levels : Nat) (config : Config) :
    Except (Except DisplayFault Report) Value :=
  (Routes.ofConfig s config).parse config.options config.limits levels c.text

theorem Source.raise_eq (s : Source) (c : Contents) (levels : Nat) (config : Config) :
    s.raise c levels config = (parseText config.options config.limits levels c.text).mapError
      (Report.ofFailure s config.reporting) := by
  rw [raise, Routes.parse_eq]
  congr 1
  funext failure
  rw [Routes.ofConfig, Routes.errorOf_reports, ite_self]

/-- What a reader is shown: name, line and column, counted from one, and text; and the excerpt at
the same offset and tab size if it is asked for. -/
structure Report.Renders (report : Report) (s : Source) (r : Reporting) : Prop where
  message_eq : report.message =
    (if s.name = "" then "<unknown>" else s.name) ++ ":" ++
      toString ((s.position r.tabSize.val report.offset).line + 1) ++ ":" ++
      toString ((s.position r.tabSize.val report.offset).column + 1) ++ ": " ++ report.text
  excerpt_isSome : report.excerpt.isSome = true ↔ r.withExcerpt = true
  excerpt_eq : ∀ x, report.excerpt = some x → x = s.excerpt r.tabSize.val report.offset

theorem Report.renders_complete (s : Source) (r : Reporting) (failure : Failure) :
    (complete s r failure).Renders s r where
  message_eq := by
    have hname : s.displayName = if s.name = "" then "<unknown>" else s.name := by
      simp only [Source.displayName, String.isEmpty_iff]
    rw [← hname]
    simp only [complete, Source.locate, Position.render, lineColumnText, String.append_assoc]
    rfl
  excerpt_isSome := by
    simp [complete]
  excerpt_eq := by
    simp [complete]

/-- How a failure is told: by a report that shows it, wherever it can be shown, and otherwise only
by what keeps it from being shown. -/
structure Failure.ToldBy (failure : Failure) (s : Source) (r : Reporting)
    (report : Except DisplayFault Report) : Prop where
  shown : r.Shows s failure.offset → ∃ made, report = .ok made ∧ made.kind = failure.cause.kind ∧
    made.text = failure.cause.message ∧ made.offset = failure.offset ∧ made.Renders s r
  overlong : ¬ (s.position r.tabSize.val failure.offset).Writable → report = .error .overlongNumber
  tooWide : (s.position r.tabSize.val failure.offset).Writable → ¬ r.Shows s failure.offset →
    report = .error .tabSizeRange

theorem Failure.toldBy_ofFailure (s : Source) (r : Reporting) (failure : Failure) :
    failure.ToldBy s r (Report.ofFailure s r failure) where
  shown h := ⟨_, Report.ofFailure_ok h, rfl, rfl, rfl, Report.renders_complete s r failure⟩
  overlong := Report.ofFailure_overlong
  tooWide hwritable h := Report.ofFailure_tooWide hwritable fun htab => h ⟨hwritable, htab⟩

def Contents.named (c : Contents) (name : String) : Source := ⟨name, some c⟩

/-- Two parses of the same bytes under any names and settings give the same value or fail alike,
also if errors are made where they are raised. Each failure is told under its own name and settings,
where these can show it. -/
theorem Source.parse_reporting (c : Contents) (o : Options) (l : Limits) (levels : Nat)
    (name name' : String) (r r' : Reporting) :
    let s := c.named name
    let s' := c.named name'
    (∃ v, s.parse levels ⟨o, l, r⟩ = .ok v ∧ s'.parse levels ⟨o, l, r'⟩ = .ok v ∧
      s.raise c levels ⟨o, l, r⟩ = .ok v ∧ s'.raise c levels ⟨o, l, r'⟩ = .ok v) ∨
    ∃ failure report report',
      s.parse levels ⟨o, l, r⟩ = .error (.rejected failure report) ∧
      s'.parse levels ⟨o, l, r'⟩ = .error (.rejected failure report') ∧
      s.raise c levels ⟨o, l, r⟩ = .error report ∧
      s'.raise c levels ⟨o, l, r'⟩ = .error report' ∧
      failure.ToldBy s r report ∧ failure.ToldBy s' r' report' := by
  intro s s'
  have hparse (name : String) (r : Reporting) : (c.named name).parse levels ⟨o, l, r⟩ = _ :=
    Source.parse_eq_outcome (rfl : (c.named name).contents = some c) ⟨o, l, r⟩
  simp only [s, s', hparse, Source.raise_eq]
  cases parseText o l levels c.text with
  | ok v => exact .inl ⟨v, rfl, rfl, rfl, rfl⟩
  | error failure =>
    exact .inr ⟨failure, _, _, rfl, rfl, rfl, rfl, failure.toldBy_ofFailure _ r,
      failure.toldBy_ofFailure _ r'⟩

/-- A bracket that is not closed is told of, but not with tab stops too far apart. -/
theorem Source.parse_bracket_hidden :
    let s := (Contents.ofBytes [0x5b]).named "open.json"
    ∃ report : Report,
      s.parse 256 ⟨{}, {}, {}⟩ = .error (.rejected ⟨.unterminated .array, 1⟩ (.ok report)) ∧
      report.message = "open.json:1:2: unterminated array" ∧
      s.parse 256 ⟨{}, {}, .tooWide⟩ =
        .error (.rejected ⟨.unterminated .array, 1⟩ (.error .tabSizeRange)) := by
  intro s
  have hparse : parseText {} {} 256 (Contents.ofBytes [0x5b]).text =
      .error ⟨.unterminated .array, 1⟩ := by cbv
  have hposition : s.position (8 : Nat) (1 : Nat) = ⟨0, 1⟩ := by cbv
  have hfar : s.position (2 ^ 31 : Nat) (1 : Nat) = ⟨0, 1⟩ := by cbv
  have hshows : Reporting.Shows {} s (1 : Nat) :=
    Reporting.shows_of_lt hposition (by decide) (by decide) (by decide)
  have hreport : Report.ofFailure s .tooWide ⟨.unterminated .array, 1⟩ = .error .tabSizeRange :=
    Report.ofFailure_of_tooWide rfl hfar (by decide) (by decide)
  refine ⟨_, (Source.parse_eq_error rfl).2 ⟨hparse, (Report.ofFailure_ok hshows).symm⟩, ?_,
    (Source.parse_eq_error rfl).2 ⟨hparse, hreport.symm⟩⟩
  show s.locate (8 : Nat) (1 : Nat) ++ ": " ++ (Cause.unterminated .array).message = _
  rw [Source.locate, hposition]
  decide

end LocatedJson
