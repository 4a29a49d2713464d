import Mathlib.Tactic.IntervalCases
import Overlay.Address.Reader
import Overlay.Text.Quoted

/-!
# Written numbers are read back

A number is written in digits of a base of at most sixteen.  The readers of
numbers give it back from its digits: the one of addresses as far as no other
digit follows, and the one of ports up to its bound.  What the reader of ports
takes is made of decimal digits, but for a plus sign in front.
-/

namespace Overlay

open Address

namespace Text

/-! ## Digits -/

theorem digitValue?_digitChar {base d : Nat} (hbase : base ≤ 16) (hd : d < base) :
    digitValue? base (Nat.digitChar d) = some d := by
  have hlt : d < 16 := Nat.lt_of_lt_of_le hd hbase
  interval_cases d <;> exact if_pos hd

theorem isDigit_range {c : Char} : c.isDigit = true ↔ 48 ≤ c.toNat ∧ c.toNat ≤ 57 := by
  simp [Char.isDigit, UInt32.le_iff_toNat_le]

theorem isDigit_of_digitValue? {c : Char} {d : Nat} (hd : digitValue? 10 c = some d) :
    c.isDigit = true := by
  have hle (a b : Char) : a ≤ b ↔ a.toNat ≤ b.toNat := Iff.rfl
  apply isDigit_range.2
  unfold digitValue? at hd
  simp only [hle, Char.reduceToNat] at hd
  grind

theorem digitChar_of_isDigit {c : Char} (hdigit : c.isDigit = true) :
    c = Nat.digitChar (c.toNat - 48) ∧ c.toNat - 48 < 10 := by
  obtain ⟨hlow, hhigh⟩ := isDigit_range.1 hdigit
  refine ⟨?_, by omega⟩
  apply Char.toNat_inj.1
  rw [Nat.toNat_digitChar_of_lt_ten (by omega)]
  omega

/-- A text in front of which no digit of a base stands. -/
def Halts (base : Nat) (chars : List Char) : Prop :=
  ∀ c ∈ chars.head?, digitValue? base c = none

theorem halts_nil (base : Nat) : Halts base [] := by
  simp [Halts]

theorem halts_cons {base : Nat} {c : Char} {rest : List Char} :
    Halts base (c :: rest) ↔ digitValue? base c = none := by
  simp [Halts]

/-- The digits of a number, most significant first. -/
theorem exists_digits {base : Nat} (hbase : 1 < base) (n : Nat) :
    ∃ digits : List Nat, Nat.toDigits base n = digits.map Nat.digitChar ∧
      ofDigits base digits = n ∧ (∀ d ∈ digits, d < base) ∧
        (digits.head? = some 0 → digits = [0]) := by
  induction n using Nat.strongRecOn with
  | ind n ih =>
      rcases Nat.lt_or_ge n base with hsmall | hlarge
      · refine ⟨[n], ?_, ?_, ?_, ?_⟩
        · rw [Nat.toDigits_of_lt_base hsmall]
          rfl
        · simp [ofDigits]
        · simpa using hsmall
        · simp
      · have hfront : 0 < n / base := Nat.div_pos hlarge (by omega)
        have hlast : n % base < base := Nat.mod_lt n (by omega)
        obtain ⟨digits, hwritten, hvalue, hbelow, hunpadded⟩ :=
          ih (n / base) (Nat.div_lt_self (by omega) hbase)
        refine ⟨digits ++ [n % base], ?_, ?_, ?_, ?_⟩
        · rw [Nat.toDigits_eq_if hbase, if_neg (Nat.not_lt.2 hlarge), hwritten]
          simp
        · have hconcat : ofDigits base (digits ++ [n % base]) =
              base * ofDigits base digits + n % base := by
            simp [ofDigits]
          rw [hconcat, hvalue]
          exact Nat.div_add_mod n base
        · intro d hd
          rcases List.mem_append.1 hd with hd | hd
          · exact hbelow d hd
          · rw [List.mem_singleton.1 hd]
            exact hlast
        · intro hhead
          have hpadded : digits.head? = some 0 := by
            cases digits with
            | nil => simp [ofDigits] at hvalue; omega
            | cons d digits => simpa using hhead
          have hzero : ofDigits base digits = 0 := by
            rw [hunpadded hpadded]
            simp [ofDigits]
          omega

end Text

namespace Address

open Text

theorem spanDigits_of_halts {base : Nat} {chars : List Char} (hchars : Halts base chars) :
    spanDigits base chars = ([], chars) := by
  cases chars with
  | nil => rfl
  | cons c rest => simp [spanDigits, halts_cons.1 hchars]

theorem spanDigits_map {base : Nat} (hbase : base ≤ 16) {digits : List Nat}
    (hdigits : ∀ d ∈ digits, d < base) {rest : List Char} (hrest : Halts base rest) :
    spanDigits base (digits.map Nat.digitChar ++ rest) = (digits, rest) := by
  induction digits with
  | nil => exact spanDigits_of_halts hrest
  | cons d digits ih =>
      have hd := digitValue?_digitChar hbase (hdigits d List.mem_cons_self)
      have hothers (e : Nat) (he : e ∈ digits) := hdigits e (List.mem_cons_of_mem _ he)
      simp [spanDigits, hd, ih hothers]

theorem readNumber?_of_halts {base : Nat} {most : Option Nat} {zeroPadded : Bool}
    {chars : List Char} (hchars : Halts base chars) :
    readNumber? base most zeroPadded chars = none := by
  unfold readNumber?
  simp [spanDigits_of_halts hchars]

/-- A number is read back from its digits, if it has no more of them than may be and no other one
follows. -/
theorem readNumber?_toDigits {base : Nat} (hbase : 1 < base) (hmost : base ≤ 16) (n : Nat)
    {most : Option Nat} (hroom : ∀ k ∈ most, (Nat.toDigits base n).length ≤ k)
    (zeroPadded : Bool) {rest : List Char} (hrest : Halts base rest) :
    readNumber? base most zeroPadded (Nat.toDigits base n ++ rest) = some (n, rest) := by
  obtain ⟨digits, hwritten, hvalue, hbelow, hunpadded⟩ := exists_digits hbase n
  have hne : digits ≠ [] := by
    intro hnil
    have hlength := congrArg List.length hwritten
    rw [hnil] at hlength
    have hpos : 0 < (Nat.toDigits base n).length := Nat.length_toDigits_pos
    simp at hlength
  have hfits : most.any (· < digits.length) = false := by
    cases most with
    | none => rfl
    | some k =>
        have hk := hroom k rfl
        rw [hwritten, List.length_map] at hk
        simpa using hk
  have hunpadded : ¬ (!zeroPadded && digits.head? = some 0 && 1 < digits.length) := by
    intro hpadded
    simp only [Bool.and_eq_true, decide_eq_true_eq] at hpadded
    obtain ⟨⟨-, hhead⟩, hlength⟩ := hpadded
    rw [hunpadded hhead] at hlength
    exact absurd hlength (by decide)
  unfold readNumber?
  rw [hwritten, spanDigits_map hmost hbelow hrest]
  simp only [hne, hfits, hunpadded, hvalue, if_false, Bool.false_eq_true]

end Address

namespace Text

/-! ## Ports -/

theorem le_foldl_digits (digits : List Nat) (n : Nat) :
    n ≤ digits.foldl (fun n d => 10 * n + d) n := by
  induction digits generalizing n with
  | nil => exact Nat.le_refl n
  | cons d digits ih =>
      have hrest := ih (10 * n + d)
      rw [List.foldl_cons]
      omega

theorem foldl_digits_lt {digits : List Nat} (hdigits : ∀ d ∈ digits, d < 10) (n : Nat) :
    digits.foldl (fun n d => 10 * n + d) n < (n + 1) * 10 ^ digits.length := by
  induction digits generalizing n with
  | nil => simp
  | cons d digits ih =>
      have hd : d < 10 := hdigits d List.mem_cons_self
      have hothers (e : Nat) (he : e ∈ digits) := hdigits e (List.mem_cons_of_mem _ he)
      have hstep : 10 * n + d + 1 ≤ (n + 1) * 10 := by omega
      calc (d :: digits).foldl (fun n d => 10 * n + d) n
          < (10 * n + d + 1) * 10 ^ digits.length := ih hothers (10 * n + d)
        _ ≤ (n + 1) * 10 * 10 ^ digits.length := Nat.mul_le_mul_right _ hstep
        _ = (n + 1) * 10 ^ (d :: digits).length := by
          rw [List.length_cons, Nat.pow_succ', Nat.mul_assoc]

theorem readDigits_map {bound : Nat} {digits : List Nat} (hdigits : ∀ d ∈ digits, d < 10)
    {n : Nat} (hbound : digits.foldl (fun n d => 10 * n + d) n ≤ bound) :
    readDigits bound n (digits.map Nat.digitChar) =
      .ok (digits.foldl (fun n d => 10 * n + d) n) := by
  induction digits generalizing n with
  | nil => rfl
  | cons d digits ih =>
      have hd := digitValue?_digitChar (by decide) (hdigits d List.mem_cons_self)
      have hothers (e : Nat) (he : e ∈ digits) := hdigits e (List.mem_cons_of_mem _ he)
      have hstep : 10 * n + d ≤ bound := Nat.le_trans (le_foldl_digits digits (10 * n + d)) hbound
      simp only [List.map_cons, readDigits, hd, if_pos hstep]
      exact ih hothers hbound

/-- A text of decimal digits is read unless its value is too large. -/
theorem readDecimal_map {bound : Nat} {digits : List Nat} (hne : digits ≠ [])
    (hdigits : ∀ d ∈ digits, d < 10) (hbound : ofDigits 10 digits ≤ bound) :
    readDecimal bound (digits.map Nat.digitChar) = .ok (ofDigits 10 digits) := by
  cases digits with
  | nil => exact absurd rfl hne
  | cons d digits =>
      have hplus : Nat.digitChar d ≠ '+' := by
        intro hplus
        have hd := digitValue?_digitChar (by decide : 10 ≤ 16) (hdigits d List.mem_cons_self)
        rw [hplus] at hd
        exact absurd hd nofun
      have hread : readDecimal bound ((d :: digits).map Nat.digitChar) =
          readDigits bound 0 ((d :: digits).map Nat.digitChar) := by
        unfold readDecimal
        split
        · contradiction
        · next hchars => exact absurd (List.cons.inj hchars).1 hplus
        · next hchars => exact absurd (List.cons.inj hchars).1 hplus
        · rfl
      rw [hread]
      exact readDigits_map hdigits hbound

/-- A port is read back from its digits. -/
theorem readUInt16_digits (port : UInt16) :
    readUInt16 (toString port.toNat).toList = .ok port := by
  obtain ⟨digits, hwritten, hvalue, hbelow, -⟩ := exists_digits (by decide : 1 < 10) port.toNat
  have hne : digits ≠ [] := by
    rintro rfl
    exact Nat.toDigits_ne_nil hwritten
  have hport : ofDigits 10 digits ≤ 65535 := by
    have hlt := port.toNat_lt
    omega
  rw [Nat.toString_eq_ofList_toDigits, String.toList_ofList]
  unfold readUInt16
  rw [hwritten, readDecimal_map hne hbelow hport, hvalue]
  simp [Except.map]

theorem isDigit_of_readDigits {bound n value : Nat} {chars : List Char}
    (hread : readDigits bound n chars = .ok value) : ∀ c ∈ chars, c.isDigit = true := by
  induction chars generalizing n with
  | nil => simp
  | cons c chars ih =>
      unfold readDigits at hread
      split at hread
      · exact absurd hread nofun
      · next d hd =>
          split at hread
          · intro e he
            rcases List.mem_cons.1 he with rfl | he
            · exact isDigit_of_digitValue? hd
            · exact ih hread e he
          · exact absurd hread nofun

/-- A text that is read as a port consists of digits, but for a plus sign in front. -/
theorem isDigit_of_readUInt16 {chars : List Char} {port : UInt16} (hplus : '+' ∉ chars)
    (hread : readUInt16 chars = .ok port) : chars ≠ [] ∧ ∀ c ∈ chars, c.isDigit = true := by
  unfold readUInt16 at hread
  cases hdecimal : readDecimal 65535 chars with
  | error fault =>
      rw [hdecimal] at hread
      exact absurd hread nofun
  | ok value =>
      unfold readDecimal at hdecimal
      split at hdecimal
      · exact absurd hdecimal nofun
      · exact absurd hdecimal nofun
      · exact absurd List.mem_cons_self hplus
      · next hne _ _ => exact ⟨hne, isDigit_of_readDigits hdecimal⟩

/-- A text of at most four digits is read as a port. -/
theorem exists_port {chars : List Char} (hne : chars ≠ []) (hshort : chars.length ≤ 4)
    (hdigits : ∀ c ∈ chars, c.isDigit = true) : ∃ port, readUInt16 chars = .ok port := by
  obtain ⟨digits, rfl, hbelow⟩ :
      ∃ digits : List Nat, chars = digits.map Nat.digitChar ∧ ∀ d ∈ digits, d < 10 := by
    refine ⟨chars.map fun c => c.toNat - 48, ?_, ?_⟩
    · rw [List.map_map]
      exact (List.map_id' chars).symm.trans
        (List.map_congr_left fun c hc => (digitChar_of_isDigit (hdigits c hc)).1)
    · intro d hd
      obtain ⟨c, hc, rfl⟩ := List.mem_map.1 hd
      exact (digitChar_of_isDigit (hdigits c hc)).2
  rw [List.length_map] at hshort
  have hvalue : ofDigits 10 digits ≤ 65535 := by
    have hlt : ofDigits 10 digits < (0 + 1) * 10 ^ digits.length := foldl_digits_lt hbelow 0
    have hpow : 10 ^ digits.length ≤ 10 ^ 4 := Nat.pow_le_pow_right (by decide) hshort
    omega
  have hdigits : digits ≠ [] := by
    rintro rfl
    exact hne rfl
  unfold readUInt16
  rw [readDecimal_map hdigits hbelow hvalue]
  exact ⟨_, rfl⟩

end Text

end Overlay
