/-
Parsing expressions: a parser takes tokens off the front of its input or fails.
Sequence, ordered choice, greedy repetition, and the rules by which a text that
was written down piece by piece is read back.
-/

import Mathlib.Data.List.Basic

namespace AutoBurst.Peg

variable {α τ ι : Type*}

abbrev Parser (α τ : Type*) := List α → Option (List τ × List α)

def seq (first second : Parser α τ) : Parser α τ := fun input =>
  (first input).bind fun taken =>
    (second taken.2).map fun next => (taken.1 ++ next.1, next.2)

def choice (first second : Parser α τ) : Parser α τ := fun input =>
  match first input with
  | some taken => some taken
  | none => second input

def opt (parser : Parser α τ) : Parser α τ := fun input =>
  match parser input with
  | some taken => some taken
  | none => some ([], input)

def upTo (parser : Parser α τ) : Nat → Parser α τ
  | 0, input => some ([], input)
  | count + 1, input =>
      match parser input with
      | some taken => (upTo parser count taken.2).map fun next => (taken.1 ++ next.1, next.2)
      | none => some ([], input)

/-- A parser that always takes something succeeds at most once per item. -/
def many (parser : Parser α τ) : Parser α τ := fun input => upTo parser input.length input

def many1 (parser : Parser α τ) : Parser α τ := seq parser (many parser)

def suppress (parser : Parser α τ) : Parser α τ := fun input =>
  (parser input).map fun taken => ([], taken.2)

def group (wrap : List τ → τ) (parser : Parser α τ) : Parser α τ := fun input =>
  (parser input).map fun taken => ([wrap taken.1], taken.2)

def taking (allowed : α → Bool) (token : List α → τ) : Parser α τ := fun input =>
  match input.takeWhile allowed with
  | [] => none
  | taken => some ([token taken], input.dropWhile allowed)

section Rules

variable {first second parser : Parser α τ} {input middle rest : List α} {tokens more : List τ}

theorem seq_eq (taken : first input = some (tokens, middle))
    (next : second middle = some (more, rest)) :
    seq first second input = some (tokens ++ more, rest) := by
  unfold seq
  rw [taken, Option.bind_some, next]
  rfl

theorem seq_none (failed : first input = none) : seq first second input = none := by
  unfold seq
  rw [failed]
  rfl

theorem seq_none_second (taken : first input = some (tokens, middle))
    (failed : second middle = none) : seq first second input = none := by
  unfold seq
  rw [taken, Option.bind_some, failed]
  rfl

theorem choice_eq (taken : first input = some (tokens, rest)) :
    choice first second input = some (tokens, rest) := by
  unfold choice
  rw [taken]

theorem choice_second (failed : first input = none) : choice first second input = second input := by
  unfold choice
  rw [failed]

theorem choice_assoc (third : Parser α τ) :
    choice (choice first second) third = choice first (choice second third) := by
  funext input
  unfold choice
  cases first input with
  | none => rfl
  | some taken => rfl

theorem opt_eq (taken : parser input = some (tokens, rest)) :
    opt parser input = some (tokens, rest) := by
  unfold opt
  rw [taken]

theorem opt_none (failed : parser input = none) : opt parser input = some ([], input) := by
  unfold opt
  rw [failed]

theorem suppress_eq (taken : parser input = some (tokens, rest)) :
    suppress parser input = some ([], rest) := by
  unfold suppress
  rw [taken]
  rfl

theorem suppress_none (failed : parser input = none) : suppress parser input = none := by
  unfold suppress
  rw [failed]
  rfl

theorem group_eq (wrap : List τ → τ) (taken : parser input = some (tokens, rest)) :
    group wrap parser input = some ([wrap tokens], rest) := by
  unfold group
  rw [taken]
  rfl

theorem group_none (wrap : List τ → τ) (failed : parser input = none) :
    group wrap parser input = none := by
  unfold group
  rw [failed]
  rfl

/-- Pieces that are read one by one, up to a rest that is none of them. -/
theorem upTo_eq (text : ι → List α) (token : ι → List τ) (items : List ι)
    (each : ∀ item ∈ items, ∀ rest, parser (text item ++ rest) = some (token item, rest))
    (stops : parser rest = none) {count : Nat} (enough : items.length ≤ count) :
    upTo parser count (items.flatMap text ++ rest) = some (items.flatMap token, rest) := by
  induction items generalizing count with
  | nil =>
      cases count with
      | zero => rfl
      | succ count =>
          rw [List.flatMap_nil, List.nil_append]
          unfold upTo
          rw [stops]
          rfl
  | cons item items ih =>
      obtain ⟨here, later⟩ := List.forall_mem_cons.mp each
      cases count with
      | zero => cases enough
      | succ count =>
          rw [List.flatMap_cons, List.append_assoc]
          unfold upTo
          rw [here]
          dsimp only
          rw [ih later (Nat.le_of_succ_le_succ enough)]
          rfl

theorem length_le_flatMap (text : ι → List α) (items : List ι)
    (nonempty : ∀ item ∈ items, text item ≠ []) :
    items.length ≤ (items.flatMap text).length := by
  induction items with
  | nil => exact Nat.le_refl 0
  | cons item items ih =>
      obtain ⟨here, later⟩ := List.forall_mem_cons.mp nonempty
      have positive := List.length_pos_of_ne_nil here
      have rest := ih later
      rw [List.flatMap_cons, List.length_append, List.length_cons]
      omega

theorem many_eq (text : ι → List α) (token : ι → List τ) (items : List ι)
    (each : ∀ item ∈ items, ∀ rest, parser (text item ++ rest) = some (token item, rest))
    (nonempty : ∀ item ∈ items, text item ≠ []) (stops : parser rest = none) :
    many parser (items.flatMap text ++ rest) = some (items.flatMap token, rest) := by
  apply upTo_eq text token items each stops
  rw [List.length_append]
  exact Nat.le_add_right_of_le (length_le_flatMap text items nonempty)

theorem taking_eq {allowed : α → Bool} (token : List α → τ) {text : List α} (nonempty : text ≠ [])
    (all : ∀ item ∈ text, allowed item = true) (stops : ∀ item ∈ rest.head?, allowed item = false) :
    taking allowed token (text ++ rest) = some ([token text], rest) := by
  have none_ : rest.takeWhile allowed = [] ∧ rest.dropWhile allowed = rest := by
    cases rest with
    | nil => exact ⟨rfl, rfl⟩
    | cons head tail =>
        rw [List.takeWhile_cons, List.dropWhile_cons, stops head rfl]
        exact ⟨rfl, rfl⟩
  have taken : (text ++ rest).takeWhile allowed = text := by
    rw [List.takeWhile_append_of_pos all, none_.1, List.append_nil]
  have left : (text ++ rest).dropWhile allowed = rest := by
    rw [List.dropWhile_append_of_pos all, none_.2]
  unfold taking
  rw [taken, left]
  cases text with
  | nil => exact absurd rfl nonempty
  | cons item items => rfl

theorem taking_none {allowed : α → Bool} (token : List α → τ) {item : α}
    (forbidden : allowed item = false) : taking allowed token (item :: rest) = none := by
  unfold taking
  rw [List.takeWhile_cons, forbidden]
  rfl

end Rules

end AutoBurst.Peg
