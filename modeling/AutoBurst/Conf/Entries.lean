/-
Configurations that survive being written: entries whose keys, values and
locations cannot be mistaken for anything else. What the dumper makes of their
trees, as one text with the blanks that lead each entry in set apart.
-/

import AutoBurst.Conf.Dumper
import AutoBurst.Conf.Terminals

namespace AutoBurst.Conf

/-! ### Entries -/

structure Key where
  first : Char
  others : List Char
  allowed : ∀ char ∈ first :: others, keyChar char = true

def Key.chars (key : Key) : List Char := key.first :: key.others

/-- A value may span lines, as long as it holds no tab. -/
structure Value where
  first : Char
  others : List Char
  solid : Solid first
  allowed : ∀ char ∈ first :: others, ['\x7b', '\x7d', ';'].contains char = false
  noTab : ∀ char ∈ first :: others, char ≠ '\t'

def Value.chars (value : Value) : List Char := value.first :: value.others

/-- A location that does not start like a modifier. -/
structure Location where
  first : Char
  others : List Char
  solid : Solid first
  plain : first ≠ '=' ∧ first ≠ '~' ∧ first ≠ '^'
  allowed : ∀ char ∈ first :: others, notInLocation.contains char = false

def Location.chars (location : Location) : List Char := location.first :: location.others

inductive Entry
  | directive (key : Key) (value : Option Value)
  | block (key : Key) (location : Option Location) (body : List Entry)

/-- Induction with a hypothesis for every entry of a block. -/
theorem Entry.nested {holds : Entry → Prop}
    (directive : ∀ key value, holds (.directive key value))
    (block : ∀ key location body, (∀ entry ∈ body, holds entry) →
      holds (.block key location body)) : ∀ entry, holds entry
  | .directive key value => directive key value
  | .block key location body =>
      block key location body fun entry _member => Entry.nested directive block entry
termination_by entry => entry

def words (key : Key) (more : Option (List Char)) : List Tree :=
  .text key.chars :: (more.map Tree.text).toList

def joined (key : Key) (more : Option (List Char)) : List Char :=
  key.chars ++ (more.map fun chars => ' ' :: chars).getD []

theorem joinTexts_words (key : Key) (more : Option (List Char)) :
    joinTexts (words key more) = some (joined key more) := by
  cases more with
  | none =>
      change some key.chars = some (key.chars ++ [])
      rw [List.append_nil]
  | some chars => rfl

def Entry.tree : Entry → Tree
  | .directive key value => .list (words key (value.map Value.chars))
  | .block key location body =>
      .list [.list (words key (location.map Location.chars)), .list (body.map Entry.tree)]

/-! ### Text -/

def Entry.lead (indent : Nat) : Entry → List Char
  | .directive _key _value => spaces indent
  | .block _key _location _body => (if indent = 0 then [] else [' ', '\n']) ++ spaces indent

def Entry.core (indent : Nat) : Entry → List Char
  | .directive key value => joined key (value.map Value.chars) ++ [';']
  | .block key location body =>
      joined key (location.map Location.chars) ++ [' ', '\x7b'] ++
        body.flatMap (fun entry => '\n' :: (entry.lead (indent + 4) ++ entry.core (indent + 4))) ++
        '\n' :: spaces indent ++ ['\x7d']

def Entry.text (indent : Nat) (entry : Entry) : List Char := entry.lead indent ++ entry.core indent

theorem core_directive (indent : Nat) (key : Key) (value : Option Value) :
    (Entry.directive key value).core indent = joined key (value.map Value.chars) ++ [';'] := by
  rw [Entry.core]

theorem core_block (indent : Nat) (key : Key) (location : Option Location) (body : List Entry) :
    (Entry.block key location body).core indent =
      joined key (location.map Location.chars) ++ [' ', '\x7b'] ++
        body.flatMap (fun entry => '\n' :: entry.text (indent + 4)) ++
        '\n' :: spaces indent ++ ['\x7d'] := by
  rw [Entry.core]
  rfl

/-! ### Dumping -/

def unlines (lines : List (List Char)) : List Char := lines.flatMap fun line => line ++ ['\n']

theorem unlines_append (first second : List (List Char)) :
    unlines (first ++ second) = unlines first ++ unlines second :=
  List.flatMap_append

theorem unlines_singleton (line : List Char) : unlines [line] = line ++ ['\n'] := by
  simp [unlines]

/-- Newlines after each entry, or before each and one at the end. -/
theorem newline_flatMap (text : Entry → List Char) (body : List Entry) :
    '\n' :: body.flatMap (fun entry => text entry ++ ['\n']) =
      body.flatMap (fun entry => '\n' :: text entry) ++ ['\n'] := by
  induction body with
  | nil => rfl
  | cons entry rest ih =>
      rw [List.flatMap_cons, List.flatMap_cons, List.append_assoc, List.append_assoc, ← ih]
      rfl

def Entry.Dumps (entry : Entry) : Prop :=
  ∀ indent rest lines, dumpParameters indent rest = some lines →
    ∃ all, dumpParameters indent (entry.tree :: rest) = some all ∧
      unlines all = entry.text indent ++ '\n' :: unlines lines

theorem dumpParameters_body {body : List Entry} (each : ∀ entry ∈ body, entry.Dumps)
    (indent : Nat) :
    ∃ lines, dumpParameters indent (body.map Entry.tree) = some lines ∧
      unlines lines = body.flatMap fun entry => entry.text indent ++ ['\n'] := by
  induction body with
  | nil => exact ⟨[], rfl, rfl⟩
  | cons entry rest ih =>
      obtain ⟨here, later⟩ := List.forall_mem_cons.mp each
      obtain ⟨lines, dumped, same⟩ := ih later
      obtain ⟨all, whole, text⟩ := here indent (rest.map Entry.tree) lines dumped
      refine ⟨all, whole, ?_⟩
      rw [text, same, List.flatMap_cons, List.append_assoc]
      rfl

private theorem unlines_filler (indent : Nat) :
    unlines (if indent = 0 then [] else [[' ']]) = if indent = 0 then [] else [' ', '\n'] := by
  split <;> rfl

theorem dumpBlock_block (key : Key) (location : Option Location) {body : List Entry}
    (each : ∀ entry ∈ body, entry.Dumps) (indent : Nat) :
    ∃ lines, dumpBlock indent (Entry.block key location body).tree = some lines ∧
      unlines lines = (Entry.block key location body).text indent ++ ['\n'] := by
  obtain ⟨inner, dumped, same⟩ := dumpParameters_body each (indent + 4)
  have header := joinTexts_words key (location.map Location.chars)
  rw [Entry.tree, dumpBlock, header, Option.bind_some, dumped, Option.map_some]
  refine ⟨_, rfl, ?_⟩
  have moved := newline_flatMap (Entry.text (indent + 4)) body
  have tail (more : List Char) :
      '\n' :: ((body.flatMap fun entry => entry.text (indent + 4) ++ ['\n']) ++ more) =
        (body.flatMap fun entry => '\n' :: entry.text (indent + 4)) ++ '\n' :: more := by
    rw [← List.cons_append, moved, List.append_assoc]
    rfl
  rw [unlines_append, unlines_append, unlines_append, unlines_singleton, unlines_singleton, same,
    Entry.text, core_block, Entry.lead, unlines_filler]
  simp only [List.append_assoc, List.cons_append, List.nil_append]
  rw [tail]

theorem dumps (entry : Entry) : entry.Dumps := by
  induction entry using Entry.nested with
  | directive key value =>
      intro indent rest lines dumped
      have line := joinTexts_words key (value.map Value.chars)
      unfold words at line
      refine ⟨(spaces indent ++ joined key (value.map Value.chars) ++ [';']) :: lines, ?_, ?_⟩
      · rw [Entry.tree, words, dumpParameters, line, Option.bind_some, dumped]
        rfl
      · rw [Entry.text, core_directive, Entry.lead]
        unfold unlines
        rw [List.flatMap_cons]
        simp only [List.append_assoc, List.cons_append, List.nil_append]
  | block key location body each =>
      intro indent rest lines dumped
      obtain ⟨here, block, text⟩ := dumpBlock_block key location each indent
      refine ⟨here ++ lines, ?_, ?_⟩
      · rw [Entry.tree] at block ⊢
        unfold words at block ⊢
        rw [dumpParameters, block, Option.bind_some, dumped]
        rfl
      · rw [unlines_append, text, List.append_assoc]
        rfl

/-! ### Whole files -/

/-- The outer loop unpacks two items, so a directive needs its value there. -/
def Entry.Valued : Entry → Prop
  | .directive _key value => value.isSome
  | .block _key _location _body => True

theorem dumpBlock_top {entry : Entry} (valued : entry.Valued) :
    ∃ lines, dumpBlock 0 entry.tree = some lines ∧ unlines lines = entry.text 0 ++ ['\n'] := by
  cases entry with
  | directive key value =>
      obtain ⟨value, rfl⟩ := Option.isSome_iff_exists.mp valued
      refine ⟨[key.chars ++ ' ' :: value.chars ++ [';']], ?_, ?_⟩
      · rw [Entry.tree]
        change dumpBlock 0 (.list [.text key.chars, .text value.chars]) = _
        rw [dumpBlock]
        rfl
      · rw [unlines_singleton, Entry.text, core_directive]
        rfl
  | block key location body =>
      exact dumpBlock_block key location (fun entry _member => dumps entry) 0

def fileText (entries : List Entry) : List Char :=
  entries.flatMap fun entry => entry.text 0 ++ ['\n']

theorem dump_eq {entries : List Entry} (valued : ∀ entry ∈ entries, entry.Valued) :
    dump (entries.map Entry.tree) = some (String.ofList (fileText entries)) := by
  have lines : ∃ lines, dumpBlocks (entries.map Entry.tree) = some lines ∧
      unlines lines = fileText entries := by
    induction entries with
    | nil => exact ⟨[], rfl, rfl⟩
    | cons entry rest ih =>
        obtain ⟨here, later⟩ := List.forall_mem_cons.mp valued
        obtain ⟨first, dumped, text⟩ := dumpBlock_top here
        obtain ⟨others, whole, same⟩ := ih later
        refine ⟨first ++ others, ?_, ?_⟩
        · rw [List.map_cons, dumpBlocks, dumped, Option.bind_some, whole]
          rfl
        · rw [unlines_append, text, same]
          rfl
  obtain ⟨lines, dumped, text⟩ := lines
  rw [dump, dumped, Option.map_some]
  exact congrArg (fun chars => some (String.ofList chars)) text

end AutoBurst.Conf
