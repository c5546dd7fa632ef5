import LocatedJson.Proofs.Lexing.Lexemes

/-! How far reading goes. A scan never goes beyond the bytes it is given, whether it reads a lexeme
or is left halfway in one. -/
namespace LocatedJson

/-- Where a scan leaves off: behind what it has read, or where it stopped. -/
def Scanned.stop {α : Type} : Scanned α → Nat
  | .ok (_, n) => n
  | .error f => f.stop

namespace Scanned

variable {α β : Type}

@[simp] theorem stop_ok (a : α) (n : Nat) : stop (.ok (a, n) : Scanned α) = n := rfl

@[simp] theorem stop_error (f : Fault) : stop (.error f : Scanned α) = f.stop := rfl

@[simp] theorem stop_after (n : Nat) (r : Scanned α) : (after n r).stop = n + r.stop := by
  cases r <;> rfl

@[simp] theorem stop_map (g : α → β) (r : Scanned α) :
    stop (r.map fun (a, n) => (g a, n)) = r.stop := by
  cases r <;> rfl

end Scanned

@[simp] theorem Fault.stop_shift (n : Nat) (f : Fault) : (f.shift n).stop = n + f.stop := rfl

namespace Scan

variable {α β : Type}

theorem stop_bind_le {first : Scan α} {next : α → Scan β} {bytes : List Byte}
    (hfirst : (first bytes).stop ≤ bytes.length)
    (hnext : ∀ a rest, (next a rest).stop ≤ rest.length) :
    ((first >>= next) bytes).stop ≤ bytes.length := by
  cases h : first bytes with
  | error f =>
    rw [h] at hfirst
    rwa [bind_error h]
  | ok r =>
    obtain ⟨a, n⟩ := r
    rw [h, Scanned.stop_ok] at hfirst
    have hrest := hnext a (bytes.drop n)
    rw [List.length_drop] at hrest
    rw [bind_ok h, Scanned.stop_after]
    omega

theorem stop_skip_bind_le {next : Unit → Scan β} {bytes : List Byte} {b : Byte}
    (hb : bytes.head? = some b) (hnext : ∀ rest, (next () rest).stop ≤ rest.length) :
    ((Scan.skip 1 >>= next) bytes).stop ≤ bytes.length := by
  obtain ⟨tail, rfl⟩ := List.head?_eq_some_iff.1 hb
  have hrest := hnext tail
  rw [skip_bind, Scanned.stop_after, List.drop_one, List.tail_cons, List.length_cons]
  omega

theorem stop_peek_bind_le {next : Option Byte → Scan β} {bytes : List Byte}
    (h : ∀ b, bytes.head? = b → (next b bytes).stop ≤ bytes.length) :
    ((Scan.peek >>= next) bytes).stop ≤ bytes.length := by
  rw [peek_bind]
  exact h bytes.head? rfl

theorem stop_run_le (inClass : Byte → Bool) (bytes : List Byte) :
    (Scan.run inClass bytes).stop ≤ bytes.length :=
  (List.takeWhile_prefix inClass).length_le

end Scan

open Scan (stop_bind_le stop_peek_bind_le stop_skip_bind_le stop_run_le)

namespace Numeral

theorem stop_scanDigits_le (place : DigitPlace) (bytes : List Byte) :
    (scanDigits place bytes).stop ≤ bytes.length := by
  refine stop_bind_le (stop_run_le _ _) fun digits rest => ?_
  split
  · exact Nat.zero_le _
  · exact Nat.zero_le _

theorem stop_scanSign_le (o : Options) (bytes : List Byte) :
    (scanSign o bytes).stop ≤ bytes.length := by
  refine stop_peek_bind_le fun found hfound => ?_
  split
  · exact stop_skip_bind_le hfound fun _ => Nat.zero_le _
  · split
    · exact stop_skip_bind_le hfound fun _ => Nat.zero_le _
    · exact Nat.zero_le _
  · exact Nat.zero_le _

theorem stop_scanWhole_le (o : Options) (bytes : List Byte) :
    (scanWhole o bytes).stop ≤ bytes.length := by
  refine stop_peek_bind_le fun found hfound => ?_
  split
  · refine stop_skip_bind_le hfound fun rest => stop_peek_bind_le fun found _ => ?_
    split
    · exact Nat.zero_le _
    · exact Nat.zero_le _
  · split
    · exact Nat.zero_le _
    · exact Nat.zero_le _
  · exact stop_scanDigits_le .integer bytes

theorem stop_scanFraction_le (bytes : List Byte) : (scanFraction bytes).stop ≤ bytes.length := by
  refine stop_peek_bind_le fun found hfound => ?_
  split
  · exact stop_skip_bind_le hfound fun rest =>
      stop_bind_le (stop_scanDigits_le _ rest) fun _ _ => Nat.zero_le _
  · exact Nat.zero_le _

theorem stop_scanEitherSign_le (bytes : List Byte) :
    (scanEitherSign bytes).stop ≤ bytes.length := by
  refine stop_peek_bind_le fun found hfound => ?_
  split
  · exact stop_skip_bind_le hfound fun _ => Nat.zero_le _
  · exact stop_skip_bind_le hfound fun _ => Nat.zero_le _
  · exact Nat.zero_le _

theorem stop_scanExponent_le (bytes : List Byte) : (scanExponent bytes).stop ≤ bytes.length := by
  refine stop_peek_bind_le fun found hfound => ?_
  split
  · next hmark =>
    obtain ⟨b, rfl, -⟩ := (Option.any_eq_true _ _).1 hmark
    exact stop_skip_bind_le hfound fun rest =>
      stop_bind_le (stop_scanEitherSign_le rest) fun _ rest =>
        stop_bind_le (stop_scanDigits_le _ rest) fun _ _ => Nat.zero_le _
  · exact Nat.zero_le _

theorem stop_scan_le (o : Options) (bytes : List Byte) : (scan o bytes).stop ≤ bytes.length :=
  stop_bind_le (stop_scanSign_le o bytes) fun _ rest =>
    stop_bind_le (stop_scanWhole_le o rest) fun _ rest =>
      stop_bind_le (stop_scanFraction_le rest) fun _ rest =>
        stop_bind_le (stop_scanExponent_le rest) fun _ _ => Nat.zero_le _

end Numeral

theorem Number.stop_scan_le (o : Options) (l : Limits) (bytes : List Byte) :
    (Number.scan o l bytes).stop ≤ bytes.length := by
  have hnumeral := Numeral.stop_scan_le o bytes
  unfold Number.scan
  split
  · next special hspecial =>
    obtain ⟨rest, rfl⟩ := SpecialNumber.exists_of_ofFront? hspecial
    split
    · exact (List.prefix_append _ rest).length_le
    · exact Nat.zero_le _
  · split
    · next f hf => rwa [hf] at hnumeral
    · next numeral n hn =>
      rw [hn, Scanned.stop_ok] at hnumeral
      split
      · exact hnumeral
      · split
        · exact hnumeral
        · exact hnumeral

namespace StringLiteral

theorem stop_scanHexDigits_le (bytes : List Byte) :
    (scanHexDigits bytes).stop ≤ bytes.length := by
  have hdigits : ((bytes.take 4).takeWhile Byte.isHexDigit).length ≤ bytes.length :=
    (List.takeWhile_prefix _).length_le.trans (List.length_take_le' 4 bytes)
  unfold scanHexDigits
  dsimp only
  split
  · next hfour =>
    rw [hfour] at hdigits
    exact hdigits
  · split
    · exact hdigits
    · exact Nat.zero_le _

theorem stop_scanLowSurrogate_le (high : Nat) (bytes : List Byte) :
    (scanLowSurrogate high bytes).stop ≤ bytes.length := by
  unfold scanLowSurrogate
  split
  · next rest =>
    have hdigits := stop_scanHexDigits_le rest
    rw [List.length_cons, List.length_cons]
    split
    · next f hf =>
      rw [hf, Scanned.stop_error] at hdigits
      simp only [Scanned.stop_error, Fault.stop_shift]
      omega
    · next low n hn =>
      rw [hn, Scanned.stop_ok] at hdigits
      split
      · rw [Scanned.stop_ok]
        omega
      · simp only [Scanned.stop_error]
        omega
  · exact Nat.zero_le _

/-- The backslash, which stands before the bytes, counts. -/
theorem stop_scanEscape_le (quote : Byte) (bytes : List Byte) :
    (scanEscape quote bytes).stop ≤ bytes.length + 1 := by
  unfold scanEscape
  split
  · exact Nat.le_refl 1
  · next rest =>
    have hdigits := stop_scanHexDigits_le rest
    rw [List.length_cons]
    split
    · next f hf =>
      rw [hf, Scanned.stop_error] at hdigits
      simp only [Scanned.stop_error, Fault.stop_shift]
      omega
    · next n width hn =>
      rw [hn, Scanned.stop_ok] at hdigits
      have hlow := stop_scanLowSurrogate_le n (rest.drop width)
      rw [List.length_drop] at hlow
      split
      · simp only [Scanned.stop_error]
        omega
      · split
        · split
          · next f hf =>
            rw [hf, Scanned.stop_error] at hlow
            simp only [Scanned.stop_error, Fault.stop_shift]
            omega
          · next c m hm =>
            rw [hm, Scanned.stop_ok] at hlow
            rw [Scanned.stop_ok]
            omega
        · rw [Scanned.stop_ok]
          omega
  · split
    · exact Nat.succ_le_succ (Nat.succ_le_succ (Nat.zero_le _))
    · exact Nat.succ_le_succ (Nat.zero_le _)

theorem stop_scanBody_le (quote : Byte) (bytes : List Byte) :
    (scanBody quote bytes).stop ≤ bytes.length := by
  fun_induction scanBody quote bytes with
  | case1 bytes run offset hdecode => exact Nat.zero_le _
  | case2 bytes run text hdecode hbehind => exact (List.takeWhile_prefix _).length_le
  | case3 bytes run text hdecode rest hbehind =>
    have hlength := congrArg List.length hbehind
    rw [List.length_drop, List.length_cons] at hlength
    rw [Scanned.stop_ok]
    omega
  | case4 bytes run text hdecode rest f hescape hbehind =>
    have hlength := congrArg List.length hbehind
    have hstop := stop_scanEscape_le quote rest
    rw [List.length_drop, List.length_cons] at hlength
    rw [hescape, Scanned.stop_error] at hstop
    rw [Scanned.stop_error, Fault.stop_shift]
    omega
  | case5 bytes run text hdecode rest c width hescape f hf hbehind _ ih =>
    have hlength := congrArg List.length hbehind
    have hwidth := stop_scanEscape_le quote rest
    rw [List.length_drop, List.length_cons] at hlength
    rw [hescape, Scanned.stop_ok] at hwidth
    rw [hf, Scanned.stop_error, List.length_drop] at ih
    simp only [Scanned.stop_error, Fault.stop_shift]
    omega
  | case6 bytes run text hdecode rest c width hescape more n hmore hbehind _ ih =>
    have hlength := congrArg List.length hbehind
    have hwidth := stop_scanEscape_le quote rest
    rw [List.length_drop, List.length_cons] at hlength
    rw [hescape, Scanned.stop_ok] at hwidth
    rw [hmore, Scanned.stop_ok, List.length_drop] at ih
    rw [Scanned.stop_ok]
    omega
  | case7 => exact (List.takeWhile_prefix _).length_le

theorem stop_scan_le (o : Options) (l : Limits) (quote : Byte) (bytes : List Byte) :
    (scan o l quote bytes).stop ≤ bytes.length + 1 := by
  have hbody := stop_scanBody_le quote bytes
  unfold scan
  split
  · exact Nat.zero_le _
  · split
    · next f hf =>
      rw [hf, Scanned.stop_error] at hbody
      simp only [Scanned.stop_error, Fault.stop_shift]
      omega
    · next text n hn =>
      rw [hn, Scanned.stop_ok] at hbody
      split
      · simp only [Scanned.stop_error]
        omega
      · rw [Scanned.stop_ok]
        omega

end StringLiteral

theorem Token.Kind.stop_scanWord_le (bytes : List Byte) :
    (Token.Kind.scanWord bytes).stop ≤ bytes.length := by
  rcases Token.Kind.scanWord_cases bytes with ⟨w, rest, rfl⟩ | hfault
  · rw [Token.Kind.scanWord_text]
    exact (List.prefix_append _ rest).length_le
  · rw [hfault]
    exact Nat.zero_le _

theorem Token.Kind.stop_scan_le (o : Options) (l : Limits) (bytes : List Byte) :
    (Token.Kind.scan o l bytes).stop ≤ bytes.length := by
  unfold Token.Kind.scan
  split
  · exact Nat.zero_le _
  · next b rest =>
    split
    · exact Nat.succ_le_succ (Nat.zero_le _)
    · split
      · rw [Scanned.stop_map]
        exact StringLiteral.stop_scan_le o l b rest
      · split
        · rw [Scanned.stop_map]
          exact Number.stop_scan_le o l (b :: rest)
        · split
          · exact Token.Kind.stop_scanWord_le (b :: rest)
          · exact Nat.zero_le _

end LocatedJson
