import Mathlib.Tactic
import DiskCatalog.Text.Digit

/-!
# Numbers of a fixed width

A number that is padded to a width has as many digits if it is small enough.  The digits read back
to it, and texts of one width are ordered as their numbers are.
-/

namespace DiskCatalog.Text

variable {w m n : Nat} {c : Char}

/-! ## Digits -/

theorem asciiDigit?_digitChar {d : Nat} (hd : d < 10) : asciiDigit? (Nat.digitChar d) = some d := by
  have hall : ∀ d < 10, asciiDigit? (Nat.digitChar d) = some d := by decide
  exact hall d hd

theorem digitChar_lt_iff {d e : Nat} (hd : d < 10) (he : e < 10) :
    Nat.digitChar d < Nat.digitChar e ↔ d < e := by
  have hall : ∀ d < 10, ∀ e < 10, (Nat.digitChar d < Nat.digitChar e ↔ d < e) := by decide
  exact hall d hd e he

theorem isAsciiDigit_iff : isAsciiDigit c ↔ 48 ≤ c.toNat ∧ c.toNat ≤ 57 := by
  have hrange : '0' ≤ c ∧ c ≤ '9' ↔ 48 ≤ c.toNat ∧ c.toNat ≤ 57 := Iff.rfl
  unfold isAsciiDigit asciiDigit?
  split_ifs with hdigit
  · simpa using hrange.mp hdigit
  · simpa using hrange.not.mp hdigit

theorem ne_of_isAsciiDigit {d : Char} (hc : isAsciiDigit c) (hd : isAsciiDigit d = false) :
    c ≠ d := by
  rintro rfl
  rw [hc] at hd
  contradiction

theorem digitsValue_concat (digits : List Nat) (d : Nat) :
    digitsValue 0 (digits ++ [d]) = 10 * digitsValue 0 digits + d := by
  rw [digitsValue, List.foldl_append]
  rfl

/-! ## Padding -/

theorem padded_one (hn : n < 10) : padded 1 n = [Nat.digitChar n] := by
  rw [padded, decimal, Nat.toDigits_of_lt_base hn]
  rfl

/-- The last digit comes off the end. -/
theorem padded_succ (hw : 1 ≤ w) (n : Nat) :
    padded (w + 1) n = padded w (n / 10) ++ [Nat.digitChar (n % 10)] := by
  by_cases hn : n < 10
  · obtain ⟨k, rfl⟩ : ∃ k, w = k + 1 := ⟨w - 1, by omega⟩
    rw [Nat.div_eq_of_lt hn, Nat.mod_eq_of_lt hn, padded, padded, decimal, decimal,
      Nat.toDigits_of_lt_base hn, Nat.toDigits_zero, List.append_cancel_right_eq]
    exact List.replicate_succ'
  · have hdigits : decimal n = decimal (n / 10) ++ [Nat.digitChar (n % 10)] :=
      Nat.toDigits_of_base_le (by decide) (not_lt.mp hn)
    simp only [padded, hdigits, List.length_append, List.length_singleton,
      Nat.add_sub_add_right, List.append_assoc]

theorem div_ten_lt (hn : n < 10 ^ (w + 1)) : n / 10 < 10 ^ w := by
  rw [Nat.pow_succ] at hn
  omega

section Width

variable (hw : 1 ≤ w)

include hw

theorem length_padded (hn : n < 10 ^ w) : (padded w n).length = w := by
  induction w, hw using Nat.le_induction generalizing n with
  | base => rw [padded_one hn, List.length_singleton]
  | succ w hw ih =>
      rw [padded_succ hw, List.length_append, ih (div_ten_lt hn), List.length_singleton]

theorem padded_ne_nil (hn : n < 10 ^ w) : padded w n ≠ [] := by
  apply List.ne_nil_of_length_pos
  rw [length_padded hw hn]
  exact hw

theorem isAsciiDigit_of_mem_padded (hn : n < 10 ^ w) (hc : c ∈ padded w n) : isAsciiDigit c := by
  have hdigit : ∀ d < 10, isAsciiDigit (Nat.digitChar d) := by decide
  induction w, hw using Nat.le_induction generalizing n with
  | base =>
      rw [padded_one hn, List.mem_singleton] at hc
      rw [hc]
      exact hdigit n hn
  | succ w hw ih =>
      rw [padded_succ hw, List.mem_append, List.mem_singleton] at hc
      rcases hc with hc | rfl
      · exact ih (div_ten_lt hn) hc
      · exact hdigit _ (Nat.mod_lt n (by decide))

theorem digitsValue_padded (hn : n < 10 ^ w) :
    digitsValue 0 ((padded w n).filterMap asciiDigit?) = n := by
  induction w, hw using Nat.le_induction generalizing n with
  | base =>
      rw [padded_one hn, List.filterMap_cons_some (asciiDigit?_digitChar hn)]
      exact Nat.zero_add n
  | succ w hw ih =>
      have hlast : n % 10 < 10 := Nat.mod_lt n (by decide)
      rw [padded_succ hw, List.filterMap_append,
        List.filterMap_cons_some (asciiDigit?_digitChar hlast), List.filterMap_nil,
        digitsValue_concat, ih (div_ten_lt hn)]
      exact Nat.div_add_mod n 10

theorem padded_inj (hm : m < 10 ^ w) (hn : n < 10 ^ w) : padded w m = padded w n ↔ m = n := by
  constructor
  · intro hsame
    rw [← digitsValue_padded hw hm, hsame, digitsValue_padded hw hn]
  · exact congrArg (padded w)

end Width

/-! ## Order -/

theorem append_lt_append_iff {a b : List Char} (hlength : a.length = b.length) (s t : List Char) :
    a ++ s < b ++ t ↔ a < b ∨ a = b ∧ s < t := by
  induction a generalizing b with
  | nil =>
      obtain rfl := List.length_eq_zero_iff.mp hlength.symm
      simp
  | cons c a ih =>
      cases b with
      | nil => contradiction
      | cons d b =>
          have hrest : a.length = b.length := by simpa using hlength
          simp only [List.cons_append, List.cons_lt_cons_iff, ih hrest, List.cons.injEq]
          tauto

theorem padded_lt_iff (hw : 1 ≤ w) (hm : m < 10 ^ w) (hn : n < 10 ^ w) :
    padded w m < padded w n ↔ m < n := by
  induction w, hw using Nat.le_induction generalizing m n with
  | base =>
      rw [padded_one hm, padded_one hn, List.cons_lt_cons_iff, digitChar_lt_iff hm hn]
      simp
  | succ w hw ih =>
      have hm' := div_ten_lt hm
      have hn' := div_ten_lt hn
      have hlength : (padded w (m / 10)).length = (padded w (n / 10)).length := by
        rw [length_padded hw hm', length_padded hw hn']
      have hlast : [Nat.digitChar (m % 10)] < [Nat.digitChar (n % 10)] ↔ m % 10 < n % 10 := by
        rw [List.cons_lt_cons_iff,
          digitChar_lt_iff (Nat.mod_lt m (by decide)) (Nat.mod_lt n (by decide))]
        simp
      rw [padded_succ hw, padded_succ hw, append_lt_append_iff hlength, ih hm' hn',
        padded_inj hw hm' hn', hlast]
      omega

/-- Numbers of one width decide the order, or else what stands behind them. -/
theorem padded_append_lt_iff (hw : 1 ≤ w) (hm : m < 10 ^ w) (hn : n < 10 ^ w) (s t : List Char) :
    padded w m ++ s < padded w n ++ t ↔ m < n ∨ m = n ∧ s < t := by
  have hlength : (padded w m).length = (padded w n).length := by
    rw [length_padded hw hm, length_padded hw hn]
  rw [append_lt_append_iff hlength, padded_lt_iff hw hm hn, padded_inj hw hm hn]

end DiskCatalog.Text
