import LocatedJson.Proofs.Machine.Numbers
import LocatedJson.Proofs.Machine.Strings

/-! The machine reads the token that the lexer reads, and stops where the lexer does, unless it
stalls at a number. -/
namespace LocatedJson.Machine

open Grammar

variable {takes : Numeral → Bool} {c : Contents} {o : Options} {l : Limits} {pos : Nat}
  {bytes : List Byte}

theorem lookUp_word {w : List Byte × Token.Kind} (hw : w ∈ Token.Kind.words) (pos : Nat) :
    lookUp Token.Kind.words w.1 pos = .ok w.2 pos := by
  have htable : ∀ w ∈ Token.Kind.words, Token.Kind.words.lookup w.1 = some w.2 := by decide
  rw [lookUp, htable w hw]
  rfl

theorem performs_readWord : Performs c (readWord c) id Token.Kind.scanWord := by
  intro pos
  unfold readWord Token.Kind.scanWord
  rw [get_bind, window_eq rfl]
  cases hfind : Token.Kind.words.find? fun w => w.1.isPrefixOf (c.text.drop pos) with
  | none => exact ⟨pos, rfl⟩
  | some w =>
    have hfront : w.1.isPrefixOf (c.text.drop pos) = true := by simpa using List.find?_some hfind
    obtain ⟨rest, hrest⟩ := List.isPrefixOf_iff_prefix.1 hfront
    dsimp only
    rw [step_bind, get_bind, slice_eq hrest.symm, lookUp_word (List.mem_of_find?_eq_some hfind)]
    rfl

theorem Agrees.bind_pure {α β γ δ : Type} {f : α → β} {g : γ → δ} {scanned : Scanned α}
    {m : Run β} (h : Agrees pos f scanned (m pos)) {e : β → δ} {k : α → γ}
    (hk : ∀ a, e (f a) = g (k a)) :
    Agrees pos g (scanned.map fun r => (k r.1, r.2)) ((m >>= fun b => pure (e b)) pos) := by
  cases scanned with
  | ok result =>
    rw [bind_ok h]
    exact congrArg (EStateM.Result.ok · _) (hk result.1)
  | error f =>
    obtain ⟨stop, h⟩ := h
    rw [bind_error h]
    exact ⟨stop, rfl⟩

theorem readToken_agrees (h : c.text.drop pos = bytes) :
    Agrees pos (fun kind => (⟨kind, pos⟩ : Token)) (Token.Kind.scan o l bytes)
        (readToken takes c o l pos) ∨
      Stalls takes c (readToken takes c o l pos) := by
  have hlength := length_bytes h
  unfold readToken
  rw [get_bind]
  cases bytes with
  | nil =>
    rw [if_pos (Nat.sub_eq_zero_iff_le.1 hlength.symm)]
    exact .inl rfl
  | cons b rest =>
    rw [List.length_cons] at hlength
    rw [if_neg (by omega), bind_ok (byteAt_eq h pos), Token.Kind.scan]
    cases Mark.ofByte? b with
    | some m => exact .inl rfl
    | none =>
      dsimp only
      split
      · rename_i hquote
        obtain ⟨q, rfl⟩ : ∃ q : Quote, q.byte = b := by
          rcases (by simpa using hquote : b = Byte.quote ∨ b = Byte.apostrophe) with rfl | rfl
          · exact ⟨.double, rfl⟩
          · exact ⟨.single, rfl⟩
        exact .inl ((readString_agrees q h).bind_pure fun _ => rfl)
      · rw [window_eq h]
        split
        · have hnumber := readNumber_agrees takes c o l pos
          rw [h] at hnumber
          exact hnumber.imp (fun hread => hread.bind_pure fun _ => rfl) fun hstalls =>
            hstalls.bind _
        · split
          · have hword := performs_readWord (c := c) pos
            rw [h] at hword
            have hid : (Token.Kind.scanWord (b :: rest)).map (fun r => (id r.1, r.2)) =
                Token.Kind.scanWord (b :: rest) := by
              cases Token.Kind.scanWord (b :: rest) <;> rfl
            rw [← hid]
            exact .inl (hword.bind_pure fun _ => rfl)
          · exact .inl ⟨pos, rfl⟩

theorem readToken_decimal {n : Decimal} {rest : List Byte}
    (h : c.text.drop pos = n.text ++ rest) :
    readToken takes c o l pos =
      (readNumber takes c o l >>= fun x => pure ⟨.number x, pos⟩) pos := by
  obtain ⟨b, tail, htext, hstarts⟩ := Token.Kind.startsNumber_decimal n rest
  rw [htext] at h
  have hlength := length_bytes h
  rw [List.length_cons] at hlength
  have hlead := Token.Kind.leadsNumber_of_startsNumber hstarts
  unfold readToken
  rw [get_bind, if_neg (by omega), bind_ok (byteAt_eq h pos),
    Token.Kind.ofByte?_of_leadsNumber hlead]
  dsimp only
  rw [if_neg (Token.Kind.not_quote_of_leadsNumber hlead), window_eq h, if_pos hstarts]

/-- A text that is a number that is not converted stalls the machine. -/
theorem nextToken_decimal {n : Decimal} (hc : c.text = n.text) (hn : n.Admitted o)
    (hlength : l.numberLength = none) (hfloat : n.numeral.isInteger = false)
    (htakes : takes n.numeral = false) :
    ∃ stop, nextToken takes c o l 0 = .error (.trapped .notANumber) stop := by
  have htext : c.text.drop 0 = n.text ++ [] := by rw [hc, List.append_nil, List.drop_zero]
  have hblank : (n.text ++ []).takeWhile Byte.isBlank = [] :=
    takeWhile_append_stop (List.forall_mem_nil _)
      (Token.Kind.stops_isBlank_lexeme (.scalar (.decimal n)) [])
  have hskip := discard_ok (passRun_eq htext Byte.isBlank)
  rw [hblank] at hskip
  have hviolation : l.violation? .numberLength n.text.length = none := by
    simp [Limits.violation?_eq_none_iff, Limits.bound_numberLength, hlength]
  have hread : readNumber takes c o l 0 = .error (.trapped .notANumber) n.text.length := by
    rw [readNumber_decimal hn htext nofun, hviolation]
    simp [hfloat, htakes]
  unfold nextToken
  rw [bind_ok hskip]
  exact ⟨_, (readToken_decimal htext).trans (bind_error hread)⟩

theorem nextToken_agrees (takes : Numeral → Bool) (o : Options) (l : Limits) (pos : Nat) :
    (match Cursor.nextToken o l ⟨pos, c.text.drop pos⟩ with
      | .ok t cursor => nextToken takes c o l pos = .ok t cursor.pos ∧
          cursor = ⟨cursor.pos, c.text.drop cursor.pos⟩
      | .error failure _ => ∃ stop,
          nextToken takes c o l pos = .error (.failed failure.cause failure.offset) stop) ∨
      Stalls takes c (nextToken takes c o l pos) := by
  have hskip := discard_ok (passRun_eq (rfl : c.text.drop pos = _) Byte.isBlank)
  unfold nextToken Cursor.nextToken
  rw [bind_ok hskip]
  simp only [bind, EStateM.bind, Cursor.skipBlanks, Cursor.advance, get, getThe, MonadStateOf.get,
    EStateM.get, Cursor.read, List.drop_drop]
  generalize pos + ((c.text.drop pos).takeWhile Byte.isBlank).length = start
  apply (readToken_agrees (o := o) (l := l) (rfl : c.text.drop start = _)).imp_left
  intro htoken
  cases hscan : Token.Kind.scan o l (c.text.drop start) with
  | ok result =>
    rw [hscan] at htoken
    exact ⟨htoken, rfl⟩
  | error f =>
    rw [hscan] at htoken
    exact htoken

end LocatedJson.Machine
