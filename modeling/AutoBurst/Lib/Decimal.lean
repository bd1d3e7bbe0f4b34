/-
Numbers written in decimal: the characters of `toString`.
-/

import Mathlib.Data.Nat.Digits.Defs

namespace AutoBurst.Decimal

theorem isDigit_of_toDigits (n : Nat) : ∀ digit ∈ Nat.toDigits 10 n, digit.isDigit = true :=
  fun _digit member => Nat.isDigit_of_mem_toDigits (by decide) (by decide) member

theorem toList_ofNat (n : Nat) : (toString (Int.ofNat n)).toList = Nat.toDigits 10 n :=
  Nat.toList_repr

theorem toList_negSucc (n : Nat) :
    (toString (Int.negSucc n)).toList = '-' :: Nat.toDigits 10 (n + 1) := by
  change ("-" ++ Nat.repr (n + 1)).toList = _
  rw [String.toList_append, Nat.toList_repr]
  rfl

theorem digit_or_minus {value : Int} {char : Char} (member : char ∈ (toString value).toList) :
    char.isDigit = true ∨ char = '-' := by
  cases value with
  | ofNat n =>
      rw [toList_ofNat] at member
      exact .inl (isDigit_of_toDigits n char member)
  | negSucc n =>
      rw [toList_negSucc, List.mem_cons] at member
      cases member with
      | inl minus => exact .inr minus
      | inr digit => exact .inl (isDigit_of_toDigits (n + 1) char digit)

end AutoBurst.Decimal
