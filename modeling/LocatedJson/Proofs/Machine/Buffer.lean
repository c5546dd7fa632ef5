import LocatedJson.Proofs.Machine.Program

/-! The machine over its buffer. A scan sees the bytes ahead and counts from the first of them; the
machine sees the buffer and counts from its beginning. What it does at a position is compared with
what a scan of the bytes ahead does. -/
namespace LocatedJson.Machine

section Monad

variable {σ α β : Type} {m : EStateM Halt σ α} {k : α → EStateM Halt σ β} {s s' : σ}

theorem bind_ok {a : α} (h : m s = .ok a s') : (m >>= k) s = k a s' := by
  simp only [bind, EStateM.bind, h]

theorem bind_error {halt : Halt} (h : m s = .error halt s') : (m >>= k) s = .error halt s' := by
  simp only [bind, EStateM.bind, h]

theorem discard_ok {a : α} (h : m s = .ok a s') : discard m s = .ok () s' := by
  show EStateM.map _ m s = _
  simp only [EStateM.map, h]

end Monad

variable {c : Contents} {o : Options} {l : Limits} {pos : Nat} {bytes : List Byte}

section Buffer

theorem window_eq (h : c.text.drop pos = bytes) : window c pos = bytes := by
  rw [← h]
  rfl

theorem buffer_getElem? (h : c.text.drop pos = bytes) {i : Nat} (hi : pos + i < c.size) :
    c.buffer[pos + i]? = bytes[i]? := by
  rw [← h, List.getElem?_drop, Contents.text, List.getElem?_take_of_lt hi]

theorem length_bytes (h : c.text.drop pos = bytes) : bytes.length = c.size - pos := by
  rw [← h, List.length_drop, Contents.length_text]

theorem peek_eq (h : c.text.drop pos = bytes) (i : Nat) : peek c i pos = .ok bytes[i]? pos := by
  have hlength := length_bytes h
  show (if c.size ≤ pos + i then pure none else do
    let b ← byteAt c (pos + i)
    return some b : Run (Option Byte)) pos = _
  by_cases hi : c.size ≤ pos + i
  · rw [if_pos hi, List.getElem?_eq_none (by omega)]
    rfl
  · have hlt : i < bytes.length := by omega
    have hbyte := buffer_getElem? h (Nat.lt_of_not_le hi)
    rw [List.getElem?_eq_getElem hlt] at hbyte
    rw [if_neg hi, List.getElem?_eq_getElem hlt, byteAt, hbyte]
    rfl

theorem byteAt_eq {b : Byte} {rest : List Byte} (h : c.text.drop pos = b :: rest) (p : Nat) :
    byteAt c pos p = .ok b p := by
  have hlength := length_bytes h
  rw [List.length_cons] at hlength
  have hbyte := buffer_getElem? (i := 0) h (by omega)
  rw [Nat.add_zero, List.getElem?_cons_zero] at hbyte
  rw [byteAt, hbyte]
  rfl

theorem slice_eq {front rest : List Byte} (h : c.text.drop pos = front ++ rest) :
    slice c pos (pos + front.length) = front := by
  have hlength := length_bytes h
  rw [List.length_append] at hlength
  have htext : (c.text.take (pos + front.length)).drop pos = front := by
    rw [← List.take_drop, h, List.take_left]
  cases hfront : front with
  | nil => simp [slice]
  | cons b tail =>
    rw [← hfront]
    have hmin : min (pos + front.length) c.size = pos + front.length := by
      have : 0 < front.length := by simp [hfront]
      omega
    rw [Contents.text, List.take_take, hmin] at htext
    exact htext

theorem drop_append {front rest : List Byte} (h : c.text.drop pos = front ++ rest) :
    c.text.drop (pos + front.length) = rest := by
  rw [← List.drop_drop, h, List.drop_left]

theorem drop_cons {b : Byte} {rest : List Byte} (h : c.text.drop pos = b :: rest) :
    c.text.drop (pos + 1) = rest := by
  rw [← List.drop_drop, h, List.drop_one, List.tail_cons]

theorem passRun_eq (h : c.text.drop pos = bytes) (inClass : Byte → Bool) :
    passRun c inClass pos =
      .ok (bytes.takeWhile inClass).length (pos + (bytes.takeWhile inClass).length) := by
  rw [← window_eq h]
  rfl

theorem get_bind {α : Type} (k : Nat → Run α) (pos : Nat) : (get >>= k) pos = k pos pos := rfl

theorem step_bind {α : Type} (n : Nat) (k : Unit → Run α) (pos : Nat) :
    (step n >>= k) pos = k () (pos + n) := rfl

end Buffer

/-- A run from a position ends as a scan of the bytes ahead does. -/
def Agrees {α β : Type} (pos : Nat) (f : α → β) (scanned : Scanned α)
    (r : EStateM.Result Halt Nat β) : Prop :=
  match scanned with
  | .ok (a, n) => r = .ok (f a) (pos + n)
  | .error fault => ∃ stop, r = .error (.failed fault.cause (pos + fault.offset : Nat)) stop

section Trapping

/-- Somewhere in the text is a number with a fraction or an exponent that is not converted. -/
def Resists (takes : Numeral → Bool) (text : List Byte) : Prop :=
  ∃ n : Grammar.Decimal, n.text <:+: text ∧ n.numeral.isInteger = false ∧ takes n.numeral = false

theorem not_resists_true (text : List Byte) : ¬ Resists (fun _ => true) text :=
  fun ⟨_, _, _, h⟩ => Bool.noConfusion h

/-- A run that is trapped at such a number. -/
def Stalls {σ α : Type} (takes : Numeral → Bool) (c : Contents)
    (r : EStateM.Result Halt σ α) : Prop :=
  Resists takes c.text ∧ ∃ s, r = .error (.trapped .notANumber) s

variable {σ α β : Type} {takes : Numeral → Bool} {m : EStateM Halt σ α} {s : σ}

theorem Stalls.bind (h : Stalls takes c (m s)) (k : α → EStateM Halt σ β) :
    Stalls takes c ((m >>= k) s) := by
  obtain ⟨hresists, s', hm⟩ := h
  exact ⟨hresists, s', bind_error hm⟩

end Trapping

section Combination

variable {α β γ δ : Type}

/-- Wherever it starts, the machine does what the scan says and gives `f` of what the scan
gives. -/
def Performs (c : Contents) (m : Run β) (f : α → β) (scan : Scan α) : Prop :=
  ∀ pos, Agrees pos f (scan (c.text.drop pos)) (m pos)

theorem Agrees.after {n : Nat} {f : α → β} {scanned : Scanned α}
    {r : EStateM.Result Halt Nat β} (h : Agrees (pos + n) f scanned r) :
    Agrees pos f (scanned.after n) r := by
  match scanned with
  | .ok (a, m) => simpa only [Agrees, Scanned.after, Nat.add_assoc] using h
  | .error fault => simpa only [Agrees, Scanned.after, Fault.shift, Nat.add_assoc] using h

theorem Agrees.bind_fault {n p : Nat} {f : α → β} {g : γ → δ} {fault : Fault} {m : Run β}
    {k : β → Run δ} (h : Agrees (pos + n) f (.error fault) (m p)) :
    Agrees pos g (.error (fault.shift n)) ((m >>= k) p) := by
  obtain ⟨stop, h⟩ := h
  refine ⟨stop, ?_⟩
  rw [bind_error h, Fault.shift, Nat.add_assoc]

theorem Performs.bind {m : Run β} {k : β → Run δ} {f : α → β} {g : γ → δ} {first : Scan α}
    {next : α → Scan γ} (h : Performs c m f first) (hk : ∀ a, Performs c (k (f a)) g (next a)) :
    Performs c (m >>= k) g (first >>= next) := by
  intro pos
  have hm := h pos
  cases hfirst : first (c.text.drop pos) with
  | ok result =>
    obtain ⟨a, n⟩ := result
    rw [hfirst] at hm
    rw [Scan.bind_ok hfirst, bind_ok hm, List.drop_drop]
    exact (hk a (pos + n)).after
  | error fault =>
    rw [hfirst] at hm
    obtain ⟨stop, hm⟩ := hm
    rw [Scan.bind_error hfirst, bind_error hm]
    exact ⟨stop, rfl⟩

theorem performs_pure (f : α → β) (a : α) : Performs c (pure (f a)) f (pure a) := fun _ => rfl

theorem performs_peek : Performs c (peek c 0) id Scan.peek := by
  intro pos
  rw [peek_eq rfl, ← List.head?_eq_getElem?]
  rfl

theorem performs_step (n : Nat) : Performs c (step n) id (Scan.skip n) := fun _ => rfl

theorem performs_run (inClass : Byte → Bool) :
    Performs c (passRun c inClass) List.length (Scan.run inClass) :=
  fun _ => passRun_eq rfl inClass

theorem performs_fail (f : α → β) (cause : Cause) :
    Performs c (failHere cause) f (Scan.fail cause) := fun pos => ⟨pos, rfl⟩

end Combination

end LocatedJson.Machine
