/-
`int` of a text: the counts of the throughput table and the request counter are
read with it. Digits and blanks are those of ASCII.
-/

import AutoBurst.Lib.Decimal
import Mathlib.Data.List.Basic

namespace AutoBurst.Controller

open Decimal

/-- `str.isspace` -/
def isSpace (ch : Char) : Bool :=
  decide (9 ≤ ch.toNat ∧ ch.toNat ≤ 13) || decide (28 ≤ ch.toNat ∧ ch.toNat ≤ 32)

def strip (text : List Char) : List Char :=
  ((text.dropWhile isSpace).reverse.dropWhile isSpace).reverse

/-- Decimal digits with single underscores between them. -/
def parseDigits (value : Nat) (afterDigit : Bool) : List Char → Option Nat
  | [] => if afterDigit then some value else none
  | '_' :: rest => if afterDigit then parseDigits value false rest else none
  | digit :: rest =>
      if digit.isDigit then parseDigits (value * 10 + (digit.toNat - '0'.toNat)) true rest
      else none

/-- `none` is a `ValueError`. -/
def parseInt (text : String) : Option Int :=
  match strip text.toList with
  | '-' :: digits => (parseDigits 0 false digits).map fun value => -(value : Int)
  | '+' :: digits => (parseDigits 0 false digits).map fun value => (value : Int)
  | digits => (parseDigits 0 false digits).map fun value => (value : Int)

/-! ### Stripping -/

section Strip

theorem not_isSpace_of_isDigit {ch : Char} (digit : ch.isDigit = true) : isSpace ch = false := by
  rw [Char.isDigit, Bool.and_eq_true, decide_eq_true_eq, decide_eq_true_eq] at digit
  have bounds : 48 ≤ ch.toNat ∧ ch.toNat ≤ 57 := digit
  unfold isSpace
  rw [decide_eq_false (by omega), decide_eq_false (by omega)]
  rfl

private theorem dropWhile_black {text : List Char}
    (black : ∀ ch ∈ text.head?, isSpace ch = false) : text.dropWhile isSpace = text := by
  cases text with
  | nil => rfl
  | cons ch rest =>
      rw [List.dropWhile_cons, black ch rfl]
      rfl

/-- Blanks behind a text that has none at its ends. -/
theorem strip_append {text : List Char} (nonempty : text ≠ [])
    (first : ∀ ch ∈ text.head?, isSpace ch = false)
    (last : ∀ ch ∈ text.getLast?, isSpace ch = false) (rest : List Char)
    (blank : ∀ ch ∈ rest, isSpace ch = true) : strip (text ++ rest) = text := by
  have front : (text ++ rest).dropWhile isSpace = text ++ rest := by
    apply dropWhile_black
    rw [List.head?_append_of_ne_nil _ nonempty]
    exact first
  have back : text.reverse.dropWhile isSpace = text.reverse := by
    apply dropWhile_black
    rw [List.head?_reverse]
    exact last
  unfold strip
  rw [front, List.reverse_append, List.dropWhile_append_of_pos, back, List.reverse_reverse]
  intro ch member
  exact blank ch (List.mem_reverse.mp member)

theorem strip_digits {digits : List Char} (nonempty : digits ≠ [])
    (all : ∀ digit ∈ digits, digit.isDigit = true) (rest : List Char)
    (blank : ∀ ch ∈ rest, isSpace ch = true) : strip (digits ++ rest) = digits := by
  refine strip_append nonempty ?_ ?_ rest blank
  · intro ch member
    exact not_isSpace_of_isDigit (all ch (List.mem_of_head? member))
  · intro ch member
    exact not_isSpace_of_isDigit (all ch (List.mem_of_getLast? member))

end Strip

/-! ### Numerals -/

theorem parseDigits_of_digits {digits : List Char} (all : ∀ digit ∈ digits, digit.isDigit = true)
    (value : Nat) (afterDigit : Bool) (some_ : afterDigit = true ∨ digits ≠ []) :
    parseDigits value afterDigit digits = some (Nat.ofDigitChars 10 digits value) := by
  induction digits generalizing value afterDigit with
  | nil =>
      rw [some_.resolve_right fun nonempty => nonempty rfl]
      rfl
  | cons digit rest ih =>
      obtain ⟨first, later⟩ := List.forall_mem_cons.mp all
      have notUnderscore : digit ≠ '_' := by
        rintro rfl
        cases first
      unfold parseDigits
      split
      · rename_i equal
        cases equal
      · rename_i equal
        exact absurd (List.cons.inj equal).1 notUnderscore
      · rename_i other tail _notUnderscore equal
        obtain ⟨rfl, rfl⟩ := List.cons.inj equal
        rw [if_pos first, ih later _ true (.inl rfl), Nat.ofDigitChars_cons, Nat.mul_comm]

theorem parseDigits_toDigits (n : Nat) : parseDigits 0 false (Nat.toDigits 10 n) = some n := by
  rw [parseDigits_of_digits (isDigit_of_toDigits n) 0 false (.inr Nat.toDigits_ne_nil),
    Nat.ofDigitChars_ten_toDigits]

theorem parseInt_digits {digits : List Char} (nonempty : digits ≠ [])
    (all : ∀ digit ∈ digits, digit.isDigit = true) :
    parseInt (String.ofList digits) = some (Nat.ofDigitChars 10 digits 0 : Int) := by
  have stripped := strip_digits nonempty all [] (fun _ch member => by cases member)
  rw [List.append_nil] at stripped
  unfold parseInt
  rw [String.toList_ofList, stripped]
  split
  · cases all '-' List.mem_cons_self
  · cases all '+' List.mem_cons_self
  · rw [parseDigits_of_digits all 0 false (.inr nonempty)]
    rfl

/-- `int(str(value)) == value` -/
theorem parseInt_toString (value : Int) : parseInt (toString value) = some value := by
  cases value with
  | ofNat n =>
      have digits := parseInt_digits Nat.toDigits_ne_nil (isDigit_of_toDigits n)
      rw [← toList_ofNat, String.ofList_toList, toList_ofNat,
        Nat.ofDigitChars_ten_toDigits] at digits
      exact digits
  | negSucc n =>
      have stripped : strip (toString (Int.negSucc n)).toList = '-' :: Nat.toDigits 10 (n + 1) := by
        have last : ∀ ch ∈ ('-' :: Nat.toDigits 10 (n + 1)).getLast?, isSpace ch = false := by
          rw [List.getLast?_cons_of_ne_nil Nat.toDigits_ne_nil]
          intro ch member
          exact not_isSpace_of_isDigit
            (isDigit_of_toDigits (n + 1) ch (List.mem_of_getLast? member))
        have whole := strip_append (List.cons_ne_nil '-' (Nat.toDigits 10 (n + 1)))
          (fun ch member => by cases member; rfl) last [] (fun _ch member => by cases member)
        rw [List.append_nil] at whole
        rw [toList_negSucc, whole]
      unfold parseInt
      rw [stripped]
      simp only [parseDigits_toDigits]
      rfl

theorem toString_injective {a b : Int} (same : toString a = toString b) : a = b := by
  have parsed := parseInt_toString a
  rw [same, parseInt_toString b] at parsed
  exact (Option.some.inj parsed).symm

end AutoBurst.Controller
