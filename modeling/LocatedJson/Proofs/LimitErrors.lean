import LocatedJson.Proofs.Pushdown.Agreement
import LocatedJson.Proofs.Reports

/-! Errors of limits are exact. They tell of a literal or of a bracket that does break its limit, by
the size that it has and where it stands; and behind any other end of a parse there is nothing
that breaks one. What stands where is said of the text alone, by cutting it into the lexemes of the
grammar, so that brackets in strings are no brackets. -/
namespace LocatedJson

namespace Grammar

/-- A lexeme at an offset of a text, and the lexemes before it. -/
inductive Stands (o : Options) : List Byte → List Lexeme → Lexeme → Nat → Prop where
  | here (gap : Gap) {x : Lexeme} {rest : List Byte} (hx : x.Admitted o .paired)
      (hrest : x.EndsBefore rest) :
      Stands o (gap.bytes ++ (x.text ++ rest)) [] x gap.bytes.length
  | later (gap : Gap) {x y : Lexeme} {xs : List Lexeme} {rest : List Byte} {k : Nat}
      (hy : y.Admitted o .paired) (hrest : y.EndsBefore rest) (h : Stands o rest xs x k) :
      Stands o (gap.bytes ++ (y.text ++ rest)) (y :: xs) x (gap.bytes.length + y.text.length + k)

def opened (xs : List Lexeme) : Nat := (xs.map fun x => x.kind.opens).sum

def closed (xs : List Lexeme) : Nat := (xs.map fun x => x.kind.closes).sum

@[simp] theorem opened_nil : opened [] = 0 := rfl

@[simp] theorem closed_nil : closed [] = 0 := rfl

@[simp] theorem opened_cons (x : Lexeme) (xs : List Lexeme) :
    opened (x :: xs) = x.kind.opens + opened xs := rfl

@[simp] theorem closed_cons (x : Lexeme) (xs : List Lexeme) :
    closed (x :: xs) = x.kind.closes + closed xs := rfl

/-- An opening bracket finds fewer structures open than the limit allows. -/
def Shallow (l : Limits) (xs : List Lexeme) (x : Lexeme) : Prop :=
  x.kind.opens = 0 ∨ opened xs < closed xs + l.nestingDepth.val

/-- What breaks a limit in a text before which `depth` structures are open: the limit, the size that
it has, the bound, and the offset. -/
inductive Breaks (o : Options) (l : Limits) (depth : Nat) (text : List Byte) :
    Measure → Nat → Nat → Nat → Prop where
  | literal {xs : List Lexeme} {x : Scalar} {m : Measure} {n bound k : Nat}
      (hx : Stands o text xs (.scalar x) k) (hm : x.measured = some (m, n))
      (hbound : bound ∈ l.bound m) (hlt : bound < n) : Breaks o l depth text m n bound k
  | bracket {xs : List Lexeme} {s : Structure} {k : Nat}
      (hx : Stands o text xs (.mark s.opening) k)
      (hdepth : depth + opened xs = closed xs + l.nestingDepth.val) :
      Breaks o l depth text .nestingDepth (l.nestingDepth.val + 1) l.nestingDepth.val k

theorem Breaks.later {o : Options} {l : Limits} {depth depth' : Nat} {rest : List Byte}
    {m : Measure} {n bound k : Nat} (h : Breaks o l depth' rest m n bound k) (gap : Gap)
    {y : Lexeme} (hy : y.Admitted o .paired) (hrest : y.EndsBefore rest)
    (hdepth : depth' + y.kind.closes = depth + y.kind.opens) :
    Breaks o l depth (gap.bytes ++ (y.text ++ rest)) m n bound
      (gap.bytes.length + y.text.length + k) := by
  cases h with
  | literal hx hm hbound hlt => exact .literal (.later gap hy hrest hx) hm hbound hlt
  | bracket hx hopen =>
    apply Breaks.bracket (.later gap hy hrest hx)
    rw [opened_cons, closed_cons]
    omega

end Grammar

open Grammar Pushdown

namespace Cursor

variable {o : Options} {l : Limits} {c c' : Cursor} {t : Token}

theorem exists_lexeme (h : nextToken o l c = .ok t c') (ht : t.kind ≠ .eof) :
    ∃ (gap : Gap) (x : Lexeme) (rest : List Byte), c.rest = gap.bytes ++ (x.text ++ rest) ∧
      x.Admitted o .paired ∧ x.EndsBefore rest ∧ t = ⟨x.kind, c.pos + gap.bytes.length⟩ ∧
      c' = ⟨c.pos + (gap.bytes.length + x.text.length), rest⟩ := by
  obtain ⟨text, hc⟩ := exists_behind c
  have hpos : c.pos = text.length := by rw [hc]; rfl
  have hpulls := nextToken_pulls o l text c.rest
  rw [← hc, h] at hpulls
  generalize hbytes : c.rest = bytes at hpulls
  cases hpulls with
  | eof gap hgap => exact absurd rfl ht
  | lexeme gap x rest hsplit hx hl hrest =>
    exact ⟨gap, x, rest, hsplit, hx, hrest, by simp [hpos], by simp [hpos, behind]⟩

theorem exists_breaks {failure : Failure} (h : nextToken o l c = .error failure c')
    (hlimit : failure.cause.kind = .limit) (depth : Nat) :
    ∃ m n bound k, failure = ⟨.limitExceeded m n bound, c.pos + k⟩ ∧
      Breaks o l depth c.rest m n bound k := by
  obtain ⟨gap, rest, hrest, hstop⟩ := exists_gap c.rest
  obtain ⟨text, hc⟩ := exists_behind c
  have hpos : c.pos = text.length := by rw [hc]; rfl
  rw [hc, hrest, nextToken_eq o l text gap hstop] at h
  cases hscan : Token.Kind.scan o l rest with
  | ok r =>
    rw [hscan] at h
    cases h
  | error f =>
    rw [hscan] at h
    cases h
    obtain ⟨x, behind, m, n, bound, rfl, hx, hends, hm, hbound, hlt, hoffset, hcause⟩ :=
      Token.Kind.exists_broken hscan hlimit
    refine ⟨m, n, bound, gap.bytes.length, ?_, ?_⟩
    · simp [hcause, hoffset, hpos]
    · rw [hrest]
      exact .literal (.here (x := .scalar x) gap hx hends) hm hbound hlt

end Cursor

theorem Pushdown.State.kind_incomplete (st : State) : st.incomplete.kind = .grammar := by
  cases st <;> rfl

namespace Lexed

variable {o : Options} {l : Limits}

/-- A run that ends at a limit ends where the limit is broken. By induction on the tokens; that no
more structures are open than the limit allows makes the number of them exact. -/
theorem run_breaks {c : Cursor} {st : State} {failure : Failure}
    (h : (cut o l c).run l st = .error failure) (hlimit : failure.cause.kind = .limit)
    (hst : st.depth ≤ l.nestingDepth.val) :
    ∃ m n bound k, failure = ⟨.limitExceeded m n bound, c.pos + k⟩ ∧
      Breaks o l st.depth c.rest m n bound k := by
  induction c using token_induction o l generalizing st with
  | refused c refusal c' hnext =>
    rw [run_cut_error hnext] at h
    cases h
    exact Cursor.exists_breaks hnext hlimit _
  | finish c offset c' hnext =>
    rw [run_cut_eof hnext] at h
    cases h
    cases (State.kind_incomplete st).symm.trans hlimit
  | token c t c' hnext heof ih =>
    obtain ⟨gap, x, rest, hrest, hx, hends, rfl, rfl⟩ := Cursor.exists_lexeme hnext heof
    have hmoves := step_moves (l := l) st ⟨x.kind, c.pos + gap.bytes.length⟩
    generalize hstep : step l st _ = r at hmoves
    cases hmoves with
    | @due st' hdepth hopen =>
      rw [run_cut_due hnext heof hstep] at h
      dsimp only at hdepth hopen
      have hone := x.kind.opens_le_one
      obtain ⟨m, n, bound, k, rfl, hbreaks⟩ := ih h (by omega)
      refine ⟨m, n, bound, gap.bytes.length + x.text.length + k, by simp [Nat.add_assoc], ?_⟩
      rw [hrest]
      exact hbreaks.later gap hx hends hdepth
    | done hopen =>
      rw [run_cut_ok hnext heof hstep] at h
      rw [offset_of_close h] at hlimit
      cases hlimit
    | refused hcause =>
      rw [run_cut_refused hnext heof hstep] at h
      cases h
      cases hcause.symm.trans hlimit
    | @deep s hkind hdeep =>
      rw [run_cut_refused hnext heof hstep] at h
      cases h
      obtain rfl := Parser.kind_eq_mark hkind
      have hdepth : st.depth = l.nestingDepth.val := by omega
      refine ⟨_, _, _, gap.bytes.length, rfl, ?_⟩
      rw [hrest, hdepth]
      exact .bracket (.here gap hx hends) (by simp)

/-- An outcome behind an offset: a value, or a failure further on. -/
def Passes (r : Except Failure Value) (offset : Nat) : Prop :=
  ∀ failure, r = .error failure → offset < failure.offset

/-- An outcome for which the lexeme at an offset has been read: behind the offset, or a complaint
about that lexeme. Data behind the value of the document is not read. -/
def Reads (r : Except Failure Value) (offset : Nat) : Prop :=
  ∀ failure, r = .error failure → offset < failure.offset ∨
    offset = failure.offset ∧ failure.cause.kind = .grammar ∧ failure.cause ≠ .trailingData

theorem not_passes {failure : Failure} {offset : Nat} (h : failure.offset ≤ offset) :
    ¬ Passes (.error failure) offset :=
  fun hpasses => absurd (hpasses failure rfl) (by omega)

theorem not_reads {failure : Failure} {offset : Nat} (h : failure.offset < offset) :
    ¬ Reads (.error failure) offset := by
  intro hreads
  rcases hreads failure rfl with hlt | ⟨heq, -⟩ <;> omega

theorem Reads.of_passes {r : Except Failure Value} {offset : Nat} (h : Passes r offset) :
    Reads r offset :=
  fun failure hfailure => .inl (h failure hfailure)

theorem vacuous_of_not_reads {r : Except Failure Value} {offset : Nat} {P Q : Prop}
    (h : ¬ Reads r offset) : (Reads r offset → P) ∧ (Passes r offset → Q) :=
  ⟨fun hreads => absurd hreads h, fun hpasses => absurd (.of_passes hpasses) h⟩

theorem close_of_stands {rest : List Byte} {xs : List Lexeme} {x : Lexeme} {k : Nat}
    (h : Stands o rest xs x k) (v : Value) (text : List Byte) :
    ∃ offset, offset ≤ text.length + k ∧
      (cut o l (.behind text rest)).close v = .error ⟨.trailingData, offset⟩ := by
  have hclose (gap : Gap) (y : Lexeme) (rest : List Byte) :
      (cut o l (.behind text (gap.bytes ++ (y.text ++ rest)))).close v =
        .error ⟨.trailingData, (text ++ gap.bytes).length⟩ := by
    have hstop := Token.Kind.stops_isBlank_lexeme y rest
    obtain ⟨b, tail, hcons⟩ := Token.Kind.exists_text_eq_cons y
    rw [hcons, List.cons_append] at hstop ⊢
    exact close_cut_cons v text gap hstop
  cases h with
  | here gap hx hrest => exact ⟨_, by simp, hclose gap x _⟩
  | @later gap _ y _ _ _ hy hrest h =>
    refine ⟨_, ?_, hclose gap y _⟩
    simp only [List.length_append]
    omega

/-- What comes of a run before a lexeme: it is refused there, for its size or because it is not due,
or the run goes on behind it. -/
inductive Takes (o : Options) (l : Limits) (st : State) (x : Lexeme) (start : Nat) (c : Cursor) :
    Except Failure Value → Prop where
  | refused {failure : Failure} (hoffset : failure.offset = start)
      (hfits : failure.cause.kind = .grammar → x.Fits l) : Takes o l st x start c (.error failure)
  | due {st' : State} (hfits : x.Fits l)
      (hdepth : st'.depth + x.kind.closes = st.depth + x.kind.opens)
      (hopen : x.kind.opens = 0 ∨ st.depth < l.nestingDepth.val) :
      Takes o l st x start c ((cut o l c).run l st')
  | done {v : Value} (hfits : x.Fits l) (hopen : x.kind.opens = 0) :
      Takes o l st x start c ((cut o l c).close v)

section Lexemes

variable {x : Lexeme} (hx : x.Admitted o .paired) (text : List Byte) (gap : Gap) {rest : List Byte}
  (hrest : x.EndsBefore rest) (st : State)

include hx hrest

theorem run_takes_of_within (hl : x.Within l) :
    Takes o l st x (text.length + gap.bytes.length) (.behind (text ++ (gap.bytes ++ x.text)) rest)
      ((cut o l (.behind text (gap.bytes ++ (x.text ++ rest)))).run l st) := by
  have hnext := Cursor.nextToken_lexeme hx hl text gap hrest
  have hmoves := step_moves (l := l) st ⟨x.kind, (text ++ gap.bytes).length⟩
  generalize hstep : step l st _ = r at hmoves
  cases hmoves with
  | due hdepth hopen =>
    rw [run_cut_due hnext (Parser.kind_ne_eof x) hstep]
    exact .due hl.fits hdepth hopen
  | done hopen =>
    rw [run_cut_ok hnext (Parser.kind_ne_eof x) hstep]
    exact .done hl.fits hopen
  | refused hcause =>
    rw [run_cut_refused hnext (Parser.kind_ne_eof x) hstep]
    exact .refused (by simp) fun _ => hl.fits
  | deep hkind hdeep =>
    rw [run_cut_refused hnext (Parser.kind_ne_eof x) hstep]
    exact .refused (by simp) fun _ => hl.fits

theorem run_takes_of_not_within (hl : ¬ x.Within l) :
    Takes o l st x (text.length + gap.bytes.length) (.behind (text ++ (gap.bytes ++ x.text)) rest)
      ((cut o l (.behind text (gap.bytes ++ (x.text ++ rest)))).run l st) := by
  have hnext := Cursor.nextToken_eq o l text gap (Token.Kind.stops_isBlank_lexeme x rest)
  cases x with
  | mark m => exact absurd trivial hl
  | scalar x =>
    obtain ⟨f, hscan, hoffset, hbeyond⟩ := Token.Kind.scan_beyond hx hl hrest
    rw [Lexeme.text, hscan] at hnext
    rw [Lexeme.text, run_cut_error hnext]
    apply Takes.refused
    · simp [hoffset]
    · intro hkind
      dsimp only at hkind
      generalize f.cause = cause at hbeyond hkind
      cases hbeyond with
      | long hfits => exact hfits
      | broken hm hbound hlt => cases hkind

theorem run_takes :
    Takes o l st x (text.length + gap.bytes.length) (.behind (text ++ (gap.bytes ++ x.text)) rest)
      ((cut o l (.behind text (gap.bytes ++ (x.text ++ rest)))).run l st) := by
  by_cases hl : x.Within l
  · exact run_takes_of_within hx text gap hrest st hl
  · exact run_takes_of_not_within hx text gap hrest st hl

end Lexemes

/-- What a run has read keeps the limits, and so does the nesting of what it has passed. By
induction on the lexemes before. -/
theorem run_keeps {bytes : List Byte} {xs : List Lexeme} {x : Lexeme} {k : Nat}
    (h : Stands o bytes xs x k) (text : List Byte) (st : State) :
    (Reads ((cut o l (.behind text bytes)).run l st) (text.length + k) → x.Fits l) ∧
      (Passes ((cut o l (.behind text bytes)).run l st) (text.length + k) →
        x.kind.opens = 0 ∨ st.depth + opened xs < closed xs + l.nestingDepth.val) := by
  induction h generalizing text st with
  | @here gap x rest hx hrest =>
    have htakes := run_takes (l := l) hx text gap hrest st
    generalize (cut o l _).run l st = r at htakes ⊢
    cases htakes with
    | due hfits hdepth hopen => exact ⟨fun _ => hfits, fun _ => by simpa using hopen⟩
    | done hfits hopen => exact ⟨fun _ => hfits, fun _ => .inl hopen⟩
    | @refused failure hoffset hfits =>
      refine ⟨fun hreads => ?_, fun hpasses => absurd hpasses (not_passes hoffset.le)⟩
      rcases hreads failure rfl with hlt | ⟨-, hkind, -⟩
      · omega
      · exact hfits hkind
  | @later gap x y xs rest k hy hrest h ih =>
    obtain ⟨b, tail, hcons⟩ := Token.Kind.exists_text_eq_cons y
    have hpos : 0 < y.text.length := by simp [hcons]
    have hlength : (text ++ (gap.bytes ++ y.text)).length + k =
        text.length + (gap.bytes.length + y.text.length + k) := by
      simp only [List.length_append]
      omega
    have htakes := run_takes (l := l) hy text gap hrest st
    generalize (cut o l _).run l st = r at htakes ⊢
    cases htakes with
    | @due st' hfits hdepth hopen =>
      rw [← hlength]
      refine (ih _ st').imp_right fun hnesting hpasses => ?_
      have := hnesting hpasses
      rw [opened_cons, closed_cons]
      omega
    | @done v hfits hopen =>
      obtain ⟨offset, hle, hclose⟩ := close_of_stands h v (text ++ (gap.bytes ++ y.text))
      rw [hclose]
      apply vacuous_of_not_reads
      intro hreads
      rcases hreads _ rfl with hlt | ⟨-, -, hcause⟩
      · dsimp only at hlt
        omega
      · exact hcause rfl
    | refused hoffset hfits => exact vacuous_of_not_reads (not_reads (by omega))

end Lexed

section Text

variable {l : Limits}

theorem parseText_breaks {o : Options} {text : List Byte} {failure : Failure}
    (hlevels : l.nestingDepth.val ≤ levels) (h : parseText o l levels text = .error failure)
    (hlimit : failure.cause.kind = .limit) :
    ∃ m n bound, failure.cause = .limitExceeded m n bound ∧
      (m = .inputSize ∧ n = text.length ∧ bound ∈ l.bound .inputSize ∧ bound < text.length ∧
          failure.offset = 0 ∨
        Breaks o l 0 text m n bound failure.offset) := by
  rw [parseText_eq_parse_ofText hlevels] at h
  unfold Lexed.parse at h
  cases hsize : l.violation? .inputSize text.length with
  | some cause =>
    rw [hsize] at h
    cases h
    obtain ⟨bound, hbound, hlt, rfl⟩ := Limits.violation?_eq_some hsize
    exact ⟨_, _, bound, rfl, .inl ⟨rfl, rfl, hbound, hlt, rfl⟩⟩
  | none =>
    rw [hsize] at h
    obtain ⟨m, n, bound, k, rfl, hbreaks⟩ := Lexed.run_breaks h hlimit (Nat.zero_le _)
    refine ⟨m, n, bound, rfl, .inr ?_⟩
    simpa [Cursor.start, State.depth] using hbreaks

theorem parseText_keeps (o : Options) (text : List Byte) (hlevels : l.nestingDepth.val ≤ levels)
    (h : ∀ failure, parseText o l levels text = .error failure → failure.cause.kind = .grammar) :
    (∀ bound ∈ l.bound .inputSize, text.length ≤ bound) ∧
      ∀ xs x k, Stands o text xs x k →
        (Lexed.Reads (parseText o l levels text) k → x.Fits l) ∧
          (Lexed.Passes (parseText o l levels text) k → Shallow l xs x) := by
  rw [parseText_eq_parse_ofText hlevels] at h ⊢
  unfold Lexed.parse at h ⊢
  cases hsize : l.violation? .inputSize text.length with
  | some cause =>
    obtain ⟨bound, -, -, rfl⟩ := Limits.violation?_eq_some hsize
    rw [hsize] at h
    cases h _ rfl
  | none =>
    refine ⟨Limits.violation?_eq_none_iff.1 hsize, fun xs x k hstands => ?_⟩
    have hkeeps := Lexed.run_keeps (l := l) hstands [] (.value [])
    simpa [State.depth, Shallow, Lexed.ofText, Cursor.start, Cursor.behind] using hkeeps

end Text

/-- A limit error tells of the input, a literal or a bracket that breaks its limit, and states the
size, the length or the depth that it has. In a parse that ends in another way the input keeps its
limit, and so does every literal that was read and every bracket that was passed. -/
theorem Source.parse_limits_exact {s : Source} {c : Contents} (hc : s.contents = some c)
    {levels : Nat} (config : Config) (hlevels : config.limits.nestingDepth.val ≤ levels) :
    (∀ failure report, s.parse levels config = .error (.rejected failure report) →
      failure.cause.kind = .limit → ∃ m n bound,
        (∀ shown, report = .ok shown → shown.text =
          m.description ++ " " ++ toString n ++ " exceeds limit " ++ toString bound) ∧
        (m = .inputSize ∧ n = c.size ∧ bound ∈ config.limits.bound .inputSize ∧ bound < c.size ∧
            failure.offset = 0 ∨
          Breaks config.options config.limits 0 c.text m n bound failure.offset)) ∧
    (∀ v, s.parse levels config = .ok v →
      (∀ bound ∈ config.limits.bound .inputSize, c.size ≤ bound) ∧
      ∀ xs x k, Stands config.options c.text xs x k →
        x.Fits config.limits ∧ Shallow config.limits xs x) ∧
    (∀ failure report, s.parse levels config = .error (.rejected failure report) →
      failure.cause.kind = .grammar →
      (∀ bound ∈ config.limits.bound .inputSize, c.size ≤ bound) ∧
      ∀ xs x k, Stands config.options c.text xs x k →
        (k < failure.offset → x.Fits config.limits ∧ Shallow config.limits xs x) ∧
        (k = failure.offset → failure.cause ≠ .trailingData → x.Fits config.limits)) := by
  simp only [Source.parse_eq_ok hc, Source.parse_eq_error hc, ← Contents.length_text]
  refine ⟨?_, ?_, ?_⟩
  · rintro failure report ⟨hparse, rfl⟩ hlimit
    obtain ⟨m, n, bound, hcause, hbreaks⟩ := parseText_breaks hlevels hparse hlimit
    refine ⟨m, n, bound, fun shown hshown => ?_, hbreaks⟩
    obtain ⟨-, rfl⟩ := Report.ofFailure_eq_ok_iff.1 hshown
    show failure.cause.message = _
    rw [hcause]
    rfl
  · intro v hparse
    have hkeeps := parseText_keeps config.options c.text hlevels (by rw [hparse]; nofun)
    rw [hparse] at hkeeps
    refine ⟨hkeeps.1, fun xs x k hstands => ?_⟩
    obtain ⟨hfits, hshallow⟩ := hkeeps.2 xs x k hstands
    exact ⟨hfits nofun, hshallow nofun⟩
  · rintro failure report ⟨hparse, -⟩ hgrammar
    have hkeeps := parseText_keeps config.options c.text hlevels
      (by rw [hparse]; rintro _ ⟨⟩; exact hgrammar)
    rw [hparse] at hkeeps
    refine ⟨hkeeps.1, fun xs x k hstands => ?_⟩
    obtain ⟨hfits, hshallow⟩ := hkeeps.2 xs x k hstands
    constructor
    · intro hlt
      have hpasses : Lexed.Passes (.error failure) k := by
        rintro _ ⟨⟩
        exact hlt
      exact ⟨hfits (.of_passes hpasses), hshallow hpasses⟩
    · intro heq hcause
      apply hfits
      rintro _ ⟨⟩
      exact .inr ⟨heq, hgrammar, hcause⟩

def quotedBracket : List Byte := [0x5b, 0x22, 0x5b, 0x22, 0x2c, 0x5b, 0x5d, 0x5d]

theorem stands_quotedBracket :
    Stands .strict quotedBracket
      [.mark .openBracket, .scalar (.string ⟨.double, [.plain '[']⟩), .mark .comma]
      (.mark .openBracket) 5 := by
  have hstring : (Lexeme.scalar (.string ⟨.double, [.plain '[']⟩)).Admitted .strict .paired :=
    ⟨trivial, List.forall_mem_singleton.2 ⟨by decide, by decide, by decide⟩⟩
  have hinner : Stands .strict [0x5b, 0x5d, 0x5d] [] (.mark .openBracket) 0 :=
    .here (x := .mark .openBracket) Gap.none trivial trivial
  have hcomma := Stands.later (y := .mark .comma) Gap.none trivial trivial hinner
  have hquoted := hcomma.later Gap.none hstring trivial
  exact hquoted.later (y := .mark .openBracket) Gap.none trivial trivial

/-- With one level the third bracket is told of, and with two it is within the limit: the bracket in
the string does not count. -/
theorem Source.parse_quotedBracket_exact :
    (∃ m n bound, Breaks .strict { nestingDepth := ⟨1, by decide⟩ } 0 quotedBracket m n bound 5) ∧
      Shallow { nestingDepth := ⟨2, by decide⟩ }
        [.mark .openBracket, .scalar (.string ⟨.double, [.plain '[']⟩), .mark .comma]
        (.mark .openBracket) := by
  have hlow : (Source.ofBytes "quoted.json" quotedBracket).parse 256
      ⟨.strict, { nestingDepth := ⟨1, by decide⟩ }, {}⟩ =
        .error (.rejected ⟨.limitExceeded .nestingDepth 2 1, 5⟩ (Report.ofFailure _ {} _)) :=
    (Source.parse_eq_error rfl).2 ⟨by cbv, rfl⟩
  have hhigh : (Source.ofBytes "quoted.json" quotedBracket).parse 256
      ⟨.strict, { nestingDepth := ⟨2, by decide⟩ }, {}⟩ = .ok (.array [.string "[", .array []]) :=
    (Source.parse_eq_ok rfl).2 (by cbv)
  have exact_at (depth : Positive) (hdepth : depth.val ≤ 256) := Source.parse_limits_exact
    (s := .ofBytes "quoted.json" quotedBracket) (c := .ofBytes quotedBracket) rfl
    ⟨.strict, { nestingDepth := depth }, {}⟩ hdepth
  constructor
  · obtain ⟨m, n, bound, -, ⟨-, -, -, -, hzero⟩ | hbreaks⟩ :=
      (exact_at ⟨1, by decide⟩ (by decide)).1 _ _ hlow rfl
    · cases hzero
    · exact ⟨m, n, bound, hbreaks⟩
  · have hkept := (exact_at ⟨2, by decide⟩ (by decide)).2.1 _ hhigh
    exact (hkept.2 _ _ _ stands_quotedBracket).2

end LocatedJson
