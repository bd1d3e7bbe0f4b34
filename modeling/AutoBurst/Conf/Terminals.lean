/-
What the terminals and the smaller rules of the grammar make of a text that
starts, after some blanks, with a character that is neither blank nor the mark
of a comment.
-/

import AutoBurst.Conf.Grammar
import Mathlib.Data.List.TakeWhile

namespace AutoBurst.Conf

open Peg

def Blanks (chars : List Char) : Prop := ∀ char ∈ chars, blank char = true

def Solid (char : Char) : Prop := blank char = false ∧ char ≠ '#'

section Skipping

variable {blanks rest : List Char} {char : Char}

theorem Blanks.append {more : List Char} (first : Blanks blanks) (second : Blanks more) :
    Blanks (blanks ++ more) :=
  List.forall_mem_append.mpr ⟨first, second⟩

theorem dropWhile_blank (all : Blanks blanks) (solid : Solid char) :
    (blanks ++ char :: rest).dropWhile blank = char :: rest := by
  rw [List.dropWhile_append_of_pos all, List.dropWhile_cons, solid.1]
  rfl

theorem skipIgnorables_eq (all : Blanks blanks) (solid : Solid char) :
    skipIgnorables (blanks ++ char :: rest) = blanks ++ char :: rest := by
  unfold skipIgnorables
  cases (blanks ++ char :: rest).length with
  | zero => rfl
  | succ count =>
      unfold skipComments
      rw [dropWhile_blank all solid]
      split
      · rename_i comment equal
        exact absurd (List.cons.inj equal).1 solid.2
      · rfl

theorem preParse_eq (all : Blanks blanks) (solid : Solid char) :
    preParse (blanks ++ char :: rest) = char :: rest := by
  unfold preParse
  rw [skipIgnorables_eq all solid, dropWhile_blank all solid]

/-- Nothing but blanks is left. -/
theorem preParse_blanks (all : Blanks blanks) : preParse blanks = [] := by
  have none_ : blanks.dropWhile blank = [] := List.dropWhile_eq_nil_iff.mpr all
  have kept : skipIgnorables blanks = blanks := by
    unfold skipIgnorables
    cases blanks.length with
    | zero => rfl
    | succ count =>
        unfold skipComments
        rw [none_]
  unfold preParse
  rw [kept, none_]

theorem not_blank_nil : Blanks [] := fun _char impossible => absurd impossible List.not_mem_nil

theorem blanks_space : Blanks [' '] := by
  intro char member
  rw [List.mem_singleton.mp member]
  rfl

theorem blanks_newline : Blanks ['\n'] := by
  intro char member
  rw [List.mem_singleton.mp member]
  rfl

theorem skipIgnorables_solid (solid : Solid char) :
    skipIgnorables (char :: rest) = char :: rest :=
  skipIgnorables_eq not_blank_nil solid

end Skipping

section Terminals

variable {blanks rest : List Char} {char : Char}

theorem literal_eq {chars : List Char} (all : Blanks blanks) (solid : Solid char) :
    literal (char :: chars) (blanks ++ char :: (chars ++ rest)) =
      some ([.text (char :: chars)], rest) := by
  unfold literal
  rw [preParse_eq all solid]
  have found : (char :: chars).isPrefixOf (char :: (chars ++ rest)) = true :=
    List.isPrefixOf_iff_prefix.mpr ⟨rest, rfl⟩
  rw [if_pos found, List.length_cons, List.drop_succ_cons, List.drop_left]

theorem literal_none {expected : Char} {chars : List Char} (all : Blanks blanks)
    (solid : Solid char) (other : expected ≠ char) :
    literal (expected :: chars) (blanks ++ char :: rest) = none := by
  unfold literal
  rw [preParse_eq all solid]
  have missing : ¬(expected :: chars).isPrefixOf (char :: rest) = true := by
    rw [List.isPrefixOf_iff_prefix, List.cons_prefix_cons]
    exact fun both => other both.1
  rw [if_neg missing]

theorem word_none {allowed : Char → Bool} (all : Blanks blanks) (solid : Solid char)
    (forbidden : allowed char = false) : word allowed (blanks ++ char :: rest) = none := by
  unfold word
  rw [preParse_eq all solid]
  exact taking_none Tree.text forbidden

theorem word_eq {allowed : Char → Bool} {others : List Char} (all : Blanks blanks)
    (solid : Solid char) (run : ∀ other ∈ char :: others, allowed other = true)
    (stops : ∀ other ∈ rest.head?, allowed other = false) :
    word allowed (blanks ++ char :: (others ++ rest)) = some ([.text (char :: others)], rest) := by
  unfold word
  rw [preParse_eq all solid, ← List.cons_append]
  exact taking_eq Tree.text (List.cons_ne_nil char others) run stops

theorem word_blanks {allowed : Char → Bool} (all : Blanks blanks) : word allowed blanks = none := by
  unfold word
  rw [preParse_blanks all]
  rfl

theorem charsNotIn_eq {excluded others : List Char} (solid : Solid char)
    (allowed : ∀ other ∈ char :: others, excluded.contains other = false)
    (stops : ∀ other ∈ rest.head?, excluded.contains other = true) :
    charsNotIn excluded (char :: (others ++ rest)) = some ([.text (char :: others)], rest) := by
  unfold charsNotIn
  rw [skipIgnorables_solid solid, ← List.cons_append]
  apply taking_eq Tree.text (List.cons_ne_nil char others)
  · intro other member
    rw [allowed other member]
    rfl
  · intro other member
    rw [stops other member]
    rfl

theorem charsNotIn_none {excluded : List Char} (solid : Solid char)
    (forbidden : excluded.contains char = true) : charsNotIn excluded (char :: rest) = none := by
  unfold charsNotIn
  rw [skipIgnorables_solid solid]
  exact taking_none Tree.text (by rw [forbidden]; rfl)

theorem space_eq (solid : Solid char) : space (' ' :: char :: rest) = some ([], char :: rest) := by
  apply suppress_eq
  unfold white
  have kept : skipIgnorables ([' '] ++ char :: rest) = [' '] ++ char :: rest :=
    skipIgnorables_eq blanks_space solid
  rw [List.singleton_append] at kept
  rw [kept, ← List.singleton_append]
  refine taking_eq Tree.text (List.cons_ne_nil ' ' []) blanks_space ?_
  intro other member
  obtain rfl := Option.some.inj member
  exact solid.1

theorem space_none (solid : Solid char) : space (char :: rest) = none := by
  apply suppress_none
  unfold white
  rw [skipIgnorables_solid solid]
  exact taking_none Tree.text solid.1

end Terminals

end AutoBurst.Conf
