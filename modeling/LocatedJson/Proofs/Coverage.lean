import LocatedJson.Proofs.Lexing.Endpoints
import LocatedJson.Proofs.Parsing.Sound
import LocatedJson.Proofs.Reading

/-! Tokens cover a text. Stepping from its beginning, the lexer goes forward only and stays in the
text, also when steps fail; between tokens it leaves nothing but blanks, and the bytes of a token
are by themselves read as that token. -/
namespace LocatedJson

open Grammar

namespace Cursor

variable {o : Options} {l : Limits} {text : List Byte} {p : Nat}

def atOffset (text : List Byte) (p : Nat) : Cursor := ⟨p, text.drop p⟩

@[simp] theorem pos_atOffset (text : List Byte) (p : Nat) : (atOffset text p).pos = p := rfl

@[simp] theorem rest_atOffset (text : List Byte) (p : Nat) :
    (atOffset text p).rest = text.drop p := rfl

theorem advance_atOffset (text : List Byte) (p n : Nat) :
    (atOffset text p).advance n = atOffset text (p + n) := by
  rw [atOffset, advance, List.drop_drop, atOffset]

theorem atOffset_eq_behind (hp : p ≤ text.length) :
    atOffset text p = behind (text.take p) (text.drop p) := by
  rw [atOffset, behind, List.length_take, Nat.min_eq_left hp]

theorem exists_skipped_atOffset (hp : p ≤ text.length) :
    ∃ q, p ≤ q ∧ q ≤ text.length ∧ (atOffset text p).skipped = atOffset text q := by
  have hblanks : ((text.drop p).takeWhile Byte.isBlank).length ≤ (text.drop p).length :=
    (List.takeWhile_prefix _).length_le
  rw [List.length_drop] at hblanks
  exact ⟨p + ((text.drop p).takeWhile Byte.isBlank).length, by omega, by omega,
    advance_atOffset text p _⟩

/-- Where the next token leaves the cursor, or the failure to read one. -/
def behindToken (o : Options) (l : Limits) (c : Cursor) : Cursor :=
  match nextToken o l c with
  | .ok _ c' => c'
  | .error _ c' => c'

theorem behindToken_of_ok {c c' : Cursor} {t : Token} (h : nextToken o l c = .ok t c') :
    behindToken o l c = c' := by
  rw [behindToken, h]

theorem behindToken_of_error {c c' : Cursor} {failure : Failure}
    (h : nextToken o l c = .error failure c') : behindToken o l c = c' := by
  rw [behindToken, h]

theorem behindToken_eq (c : Cursor) :
    behindToken o l c = c.skipped.advance (Token.Kind.scan o l c.skipped.rest).stop := by
  rw [behindToken, nextToken_eq_scan]
  cases Token.Kind.scan o l c.skipped.rest <;> rfl

theorem exists_behindToken (o : Options) (l : Limits) (hp : p ≤ text.length) :
    ∃ q, p ≤ q ∧ q ≤ text.length ∧ behindToken o l (atOffset text p) = atOffset text q := by
  obtain ⟨q, hpq, hq, hskipped⟩ := exists_skipped_atOffset hp
  have hscan := Token.Kind.stop_scan_le o l (text.drop q)
  rw [List.length_drop] at hscan
  rw [behindToken_eq, hskipped, rest_atOffset, advance_atOffset]
  exact ⟨_, by omega, by omega, rfl⟩

def offsetAfter (o : Options) (l : Limits) (text : List Byte) (n : Nat) : Nat :=
  ((behindToken o l)^[n] (start text)).pos

theorem iterate_behindToken (o : Options) (l : Limits) (text : List Byte) (n : Nat) :
    (behindToken o l)^[n] (start text) = atOffset text (offsetAfter o l text n) ∧
      offsetAfter o l text n ≤ text.length := by
  unfold offsetAfter
  induction n with
  | zero => exact ⟨rfl, Nat.zero_le _⟩
  | succ n ih =>
    obtain ⟨q, -, hq, hstep⟩ := exists_behindToken o l ih.2
    rw [Function.iterate_succ_apply', ih.1, hstep]
    exact ⟨rfl, hq⟩

theorem offsetAfter_monotone (o : Options) (l : Limits) (text : List Byte) :
    Monotone (offsetAfter o l text) := by
  refine monotone_nat_of_le_succ fun n => ?_
  obtain ⟨hcursor, hle⟩ := iterate_behindToken o l text n
  obtain ⟨q, hq, -, hstep⟩ := exists_behindToken o l hle
  have hnext : offsetAfter o l text (n + 1) = q := by
    rw [offsetAfter, Function.iterate_succ_apply', hcursor, hstep, pos_atOffset]
  rwa [hnext]

inductive Finds (o : Options) (l : Limits) : Cursor → Tokens → Prop where
  | failed {c c' : Cursor} {failure : Failure} (h : nextToken o l c = .error failure c') :
      Finds o l c ⟨[], some failure, c'⟩
  | ended {c c' : Cursor} {t : Token} (h : nextToken o l c = .ok t c') (ht : t.kind = .eof) :
      Finds o l c ⟨[t], none, c'⟩
  | token {c c' : Cursor} {t : Token} {ts : Tokens} (h : nextToken o l c = .ok t c')
      (ht : t.kind ≠ .eof) (hrest : Finds o l c' ts) :
      Finds o l c { ts with found := t :: ts.found }

theorem finds_tokensWithin {bound : Nat} {c : Cursor} (h : c.rest.length < bound) :
    Finds o l c (tokensWithin o l bound c) := by
  induction bound generalizing c with
  | zero => omega
  | succ bound ih =>
    unfold tokensWithin
    cases hnext : nextToken o l c with
    | error failure c' => exact .failed hnext
    | ok t c' =>
      dsimp only
      by_cases ht : t.kind = .eof
      · rw [if_pos ht]
        exact .ended hnext ht
      · have hlt := length_rest_lt hnext ht
        rw [if_neg ht]
        exact .token hnext ht (ih (by omega))

theorem finds_tokens (o : Options) (l : Limits) (text : List Byte) :
    Finds o l (start text) (tokens o l text) :=
  finds_tokensWithin (Nat.lt_succ_self _)

namespace Finds

variable {c : Cursor} {ts : Tokens}

/-- Each token is what the step of its number reads, and only the last can be the end. -/
theorem nextToken (h : Finds o l c ts) {i : Nat} {t : Token} (hi : ts.found[i]? = some t) :
    Cursor.nextToken o l ((behindToken o l)^[i] c) = .ok t ((behindToken o l)^[i + 1] c) ∧
      (t.kind = .eof → i + 1 = ts.found.length) := by
  induction h generalizing i with
  | failed h => cases hi
  | ended h ht =>
    match i with
    | 0 =>
      cases hi
      exact ⟨h.trans (congrArg _ (behindToken_of_ok h).symm), fun _ => rfl⟩
    | i + 1 => cases hi
  | token h ht hrest ih =>
    match i with
    | 0 =>
      cases hi
      exact ⟨h.trans (congrArg _ (behindToken_of_ok h).symm), fun heof => absurd heof ht⟩
    | i + 1 =>
      obtain ⟨hread, hlast⟩ := ih hi
      rw [Function.iterate_succ_apply, Function.iterate_succ_apply, behindToken_of_ok h]
      exact ⟨hread, fun heof => congrArg Nat.succ (hlast heof)⟩

theorem length_found_le (h : Finds o l c ts) : ts.found.length ≤ c.rest.length + 1 := by
  induction h with
  | failed h => exact Nat.zero_le _
  | ended h ht => exact Nat.succ_le_succ (Nat.zero_le _)
  | token h ht hrest ih =>
    have hlt := length_rest_lt h ht
    rw [List.length_cons]
    omega

theorem getLast_of_complete (h : Finds o l c ts) (hnone : ts.failure = none) :
    ∃ t, ts.found.getLast? = some t ∧ t.kind = .eof := by
  induction h with
  | failed h => cases hnone
  | ended h ht => exact ⟨_, rfl, ht⟩
  | token h ht hrest ih =>
    obtain ⟨t, hlast, heof⟩ := ih hnone
    refine ⟨t, ?_, heof⟩
    rw [List.getLast?_cons, hlast, Option.getD_some]

theorem nextToken_of_failure (h : Finds o l c ts) {failure : Failure}
    (hsome : ts.failure = some failure) :
    Cursor.nextToken o l ((behindToken o l)^[ts.found.length] c) =
        .error failure ((behindToken o l)^[ts.found.length + 1] c) ∧
      ∀ t ∈ ts.found, t.kind ≠ .eof := by
  induction h with
  | failed h =>
    cases hsome
    exact ⟨h.trans (congrArg _ (behindToken_of_error h).symm), nofun⟩
  | ended h ht => cases hsome
  | token h ht hrest ih =>
    obtain ⟨hfailed, hne⟩ := ih hsome
    rw [List.length_cons, Function.iterate_succ_apply, Function.iterate_succ_apply,
      behindToken_of_ok h]
    exact ⟨hfailed, List.forall_mem_cons.2 ⟨ht, hne⟩⟩

end Finds

end Cursor

/-! What a token takes of the text. -/

theorem tokens_lexeme {o : Options} {l : Limits} {x : Lexeme} (hx : x.Admitted o .paired)
    (hl : x.Within l) :
    tokens o l x.text =
      ⟨[⟨x.kind, 0⟩, ⟨.eof, x.text.length⟩], none, ⟨x.text.length, []⟩⟩ := by
  have hlexeme := Cursor.nextToken_lexeme hx hl [] Gap.none x.endsBefore_nil
  have hend := Cursor.nextToken_eof (o := o) (l := l) x.text Gap.none
  simp only [Gap.bytes_none, List.nil_append, List.append_nil] at hlexeme hend
  obtain ⟨b, tail, htext⟩ := Token.Kind.exists_text_eq_cons x
  have hbound : x.text.length + 1 = tail.length + 1 + 1 := by rw [htext, List.length_cons]
  have hstart : Cursor.start x.text = Cursor.behind [] x.text := rfl
  rw [tokens, hbound, hstart, tokensWithin, hlexeme]
  dsimp only
  rw [if_neg (Parser.kind_ne_eof x), tokensWithin, hend]
  rfl

theorem slice_middle {α : Type} (front middle back : List α) :
    ((front ++ (middle ++ back)).take (front ++ middle).length).drop front.length = middle := by
  rw [← List.append_assoc, List.take_left, List.drop_left]

/-- The token takes the bytes from its offset up to `stop`, before it from `start` on are blanks,
and its bytes by themselves, with limits or without, are read as this token and the end. -/
structure Token.Occupies (o : Options) (l : Limits) (text : List Byte) (start : Nat) (t : Token)
    (stop : Nat) : Prop where
  start_le : start ≤ t.offset
  blank : ∀ b ∈ (text.take t.offset).drop start, b.isBlank = true
  lt_stop : t.offset < stop
  stop_le : stop ≤ text.length
  alone : ∀ l' ∈ [l, {}], tokens o l' ((text.take stop).drop t.offset) =
    ⟨[⟨t.kind, 0⟩, ⟨.eof, stop - t.offset⟩], none, ⟨stop - t.offset, []⟩⟩

namespace Cursor

variable {o : Options} {l : Limits} {text : List Byte} {p : Nat} {t : Token} {c' : Cursor}

theorem occupies_of_nextToken (hp : p ≤ text.length)
    (h : nextToken o l (atOffset text p) = .ok t c') (ht : t.kind ≠ .eof) :
    t.Occupies o l text p c'.pos := by
  have hpulls := nextToken_pulls o l (text.take p) (text.drop p)
  rw [← atOffset_eq_behind hp, h] at hpulls
  have hlength : (text.take p).length = p := List.length_take_of_le hp
  have hsplit := (List.take_append_drop p text).symm
  generalize text.take p = front, text.drop p = bytes at hpulls hlength hsplit
  cases hpulls with
  | eof gap hbytes => exact absurd rfl ht
  | lexeme gap x rest hbytes hx hl hrest =>
    subst hbytes hsplit hlength
    obtain ⟨b, tail, htext⟩ := Token.Kind.exists_text_eq_cons x
    have hstop : (behind (front ++ (gap.bytes ++ x.text)) rest).pos =
        (front ++ gap.bytes ++ x.text).length := by
      rw [behind, List.append_assoc]
    have hwidth : (behind (front ++ (gap.bytes ++ x.text)) rest).pos -
        (front ++ gap.bytes).length = x.text.length := by
      rw [hstop, List.length_append, Nat.add_sub_cancel_left]
    have hmiddle : ((front ++ (gap.bytes ++ (x.text ++ rest))).take
        (behind (front ++ (gap.bytes ++ x.text)) rest).pos).drop (front ++ gap.bytes).length =
          x.text := by
      rw [hstop, ← List.append_assoc, slice_middle]
    refine ⟨?_, ?_, ?_, ?_, fun l' hl' => ?_⟩
    · simp
    · rw [slice_middle]
      exact gap.blank
    · rw [hstop, htext]
      simp
    · simp [hstop]
    · simp only [hmiddle, hwidth]
      apply tokens_lexeme hx
      rcases List.mem_pair.1 hl' with rfl | rfl
      · exact hl
      · exact hl.unlimited

theorem blank_of_nextToken_eof (hp : p ≤ text.length)
    (h : nextToken o l (atOffset text p) = .ok t c') (ht : t.kind = .eof) :
    t.offset = text.length ∧ ∀ b ∈ text.drop p, b.isBlank = true := by
  have hpulls := nextToken_pulls o l (text.take p) (text.drop p)
  rw [← atOffset_eq_behind hp, h] at hpulls
  have hsplit := congrArg List.length (List.take_append_drop p text)
  generalize text.take p = front, text.drop p = bytes at hpulls hsplit ⊢
  cases hpulls with
  | eof gap hbytes =>
    subst hbytes
    exact ⟨hsplit, gap.blank⟩
  | lexeme gap x rest hbytes hx hl hrest => exact absurd ht (Parser.kind_ne_eof x)

end Cursor

namespace Reader

def ofContents (c : Contents) (o : Options) (l : Limits) : Reader :=
  { contents := c, options := o, limits := l }

def behindNext (r : Reader) : Reader :=
  match next r with
  | .ok _ r' => r'
  | .error _ r' => r'

variable {c : Contents} {o : Options} {l : Limits}

theorem next_seek {p : Nat} (hp : p ≤ c.size) :
    next ((ofContents c o l).seek p) =
      follow (Cursor.nextToken o l) (.atOffset c.text p) (ofContents c o l) := by
  have hpos : ((ofContents c o l).seek p).pos = p := rfl
  have horigin : ((ofContents c o l).seek p).origin = p :=
    (origin_eq hpos).trans (Nat.min_eq_left (hp.trans c.size_le))
  have hahead : ((ofContents c o l).seek p).ahead = c.text.drop p := ahead_eq hpos
  rw [next, horigin, hahead]
  rfl

theorem behindNext_seek {p : Nat} (hp : p ≤ c.size) :
    behindNext ((ofContents c o l).seek p) =
      (ofContents c o l).seek (Cursor.behindToken o l (.atOffset c.text p)).pos := by
  rw [behindNext, next_seek hp, Cursor.behindToken, follow]
  cases Cursor.nextToken o l (.atOffset c.text p) <;> rfl

theorem iterate_behindNext (n : Nat) :
    behindNext^[n] (ofContents c o l) =
      (ofContents c o l).seek (Cursor.offsetAfter o l c.text n) := by
  induction n with
  | zero => rfl
  | succ n ih =>
    obtain ⟨hcursor, hle⟩ := Cursor.iterate_behindToken o l c.text n
    rw [Contents.length_text] at hle
    rw [Function.iterate_succ_apply', ih, behindNext_seek hle, ← hcursor,
      ← Function.iterate_succ_apply' (Cursor.behindToken o l), Cursor.offsetAfter]

end Reader

/-- The tokens of some contents, the readings they come from, and where these leave the reader. -/
theorem Reader.tokens_cover (c : Contents) (o : Options) (l : Limits) :
    let found := (tokens o l c.text).found
    let reader (n : Nat) := Reader.behindNext^[n] (.ofContents c o l)
    ∃ pos : Nat → Nat,
      pos 0 = 0 ∧ Monotone pos ∧ (∀ n, pos n ≤ c.size) ∧
      (∀ n, reader n = (Reader.ofContents c o l).seek (pos n)) ∧
      (∀ i t, found[i]? = some t → Reader.next (reader i) = .ok t (reader (i + 1)) ∧
        if t.kind = .eof then
          i + 1 = found.length ∧ t.offset = c.size ∧ ∀ b ∈ c.text.drop (pos i), b.isBlank = true
        else t.Occupies o l c.text (pos i) (pos (i + 1))) ∧
      found.length ≤ c.size + 1 ∧
      match (tokens o l c.text).failure with
      | none => ∃ t, found.getLast? = some t ∧ t.kind = .eof
      | some failure => (∀ t ∈ found, t.kind ≠ .eof) ∧
          Reader.next (reader found.length) =
            .error (.rejected failure.cause failure.offset) (reader (found.length + 1)) := by
  intro found reader
  have hfinds := Cursor.finds_tokens o l c.text
  have hcursor := Cursor.iterate_behindToken o l c.text
  have hsize (n : Nat) : Cursor.offsetAfter o l c.text n ≤ c.size := by
    simpa using (hcursor n).2
  have hnext (n : Nat) : Reader.next (reader n) = Reader.follow (Cursor.nextToken o l)
      ((Cursor.behindToken o l)^[n] (.start c.text)) (.ofContents c o l) := by
    rw [(hcursor n).1, ← Reader.next_seek (hsize n), ← Reader.iterate_behindNext]
  refine ⟨Cursor.offsetAfter o l c.text, rfl, Cursor.offsetAfter_monotone o l c.text, hsize,
    fun n => Reader.iterate_behindNext n, fun i t hi => ?_, ?_, ?_⟩
  · obtain ⟨hread, hlast⟩ := hfinds.nextToken hi
    constructor
    · rw [hnext, Reader.follow, hread]
      exact congrArg _ (Reader.iterate_behindNext (i + 1)).symm
    · rw [(hcursor i).1] at hread
      split
      · next heof =>
        obtain ⟨hoffset, hblank⟩ := Cursor.blank_of_nextToken_eof (hcursor i).2 hread heof
        exact ⟨hlast heof, by simpa using hoffset, hblank⟩
      · next hne => exact Cursor.occupies_of_nextToken (hcursor i).2 hread hne
  · have hle : found.length ≤ c.text.length + 1 := hfinds.length_found_le
    rwa [Contents.length_text] at hle
  · split
    · next hnone => exact hfinds.getLast_of_complete hnone
    · next failure hsome =>
      obtain ⟨hfailed, hne⟩ := hfinds.nextToken_of_failure hsome
      refine ⟨hne, ?_⟩
      rw [hnext, Reader.follow, hfailed]
      exact congrArg _ (Reader.iterate_behindNext (found.length + 1)).symm

end LocatedJson
