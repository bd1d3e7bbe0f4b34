/-
The configuration grammar: `NginxParser` of src/src/nginxParser.py.

The combinators of pyparsing are parsing expressions. Before a literal or a
word, blanks and comments are skipped; before a run of other characters and
before `White` only comments are, together with the blanks in front of them.
`ignore` reaches every part of the grammar. Tabs are expanded before parsing, as
`parseString` does, and what follows the script is not looked at.
-/

import AutoBurst.Lib.Peg

namespace AutoBurst.Conf

open Peg

/-- The nested lists that `asList` returns, a string being its characters. -/
inductive Tree
  | text (chars : List Char)
  | list (items : List Tree)

def Tree.str (content : String) : Tree := .text content.toList

mutual

def decEqTree : (first second : Tree) → Decidable (first = second)
  | .text first, .text second =>
      if same : first = second then .isTrue (congrArg Tree.text same)
      else .isFalse fun equal => same (Tree.text.inj equal)
  | .list first, .list second =>
      match decEqTrees first second with
      | .isTrue same => .isTrue (congrArg Tree.list same)
      | .isFalse different => .isFalse fun equal => different (Tree.list.inj equal)
  | .text _first, .list _second => .isFalse nofun
  | .list _first, .text _second => .isFalse nofun

def decEqTrees : (first second : List Tree) → Decidable (first = second)
  | [], [] => .isTrue rfl
  | [], _ :: _ => .isFalse nofun
  | _ :: _, [] => .isFalse nofun
  | first :: left, second :: right =>
      match decEqTree first second, decEqTrees left right with
      | .isTrue same, .isTrue rest => .isTrue (congr (congrArg List.cons same) rest)
      | .isFalse different, _ => .isFalse fun equal => different (List.cons.inj equal).1
      | .isTrue _same, .isFalse different =>
          .isFalse fun equal => different (List.cons.inj equal).2

end

instance : DecidableEq Tree := decEqTree

abbrev Grammar := Parser Char Tree

/-! ### Skipping -/

def blank (char : Char) : Bool :=
  char == ' ' || char == '\t' || char == '\n' || char == '\r'

/-- Comments with the blanks in front of them: `#.*`, to the end of the line. -/
def skipComments : Nat → List Char → List Char
  | 0, input => input
  | count + 1, input =>
      match input.dropWhile blank with
      | '#' :: comment => skipComments count (comment.dropWhile (· != '\n'))
      | _ => input

def skipIgnorables (input : List Char) : List Char := skipComments input.length input

def preParse (input : List Char) : List Char := (skipIgnorables input).dropWhile blank

/-! ### Terminals -/

def literal (chars : List Char) : Grammar := fun input =>
  if chars.isPrefixOf (preParse input) then
    some ([.text chars], (preParse input).drop chars.length)
  else none

def word (allowed : Char → Bool) : Grammar := fun input => taking allowed .text (preParse input)

def charsNotIn (excluded : List Char) : Grammar := fun input =>
  taking (fun char => !excluded.contains char) .text (skipIgnorables input)

def white : Grammar := fun input => taking blank .text (skipIgnorables input)

def skipTo (target : Char) : Grammar := fun input =>
  if (preParse input).contains target then
    some ([.text ((preParse input).takeWhile (· != target))],
      (preParse input).dropWhile (· != target))
  else none

/-! ### Constants -/

def leftBracket : Grammar := suppress (literal ['\x7b'])
def rightBracket : Grammar := suppress (literal ['\x7d'])
def semicolon : Grammar := suppress (literal [';'])
def space : Grammar := suppress white

def keyChar (char : Char) : Bool := char.isAlphanum || char == '_' || char == '/'

def key : Grammar := word keyChar
def value : Grammar := charsNotIn ['\x7b', '\x7d', ';']
def value2 : Grammar := charsNotIn [';']

/-- The last six are `string.whitespace`. -/
def notInLocation : List Char :=
  ['\x7b', '\x7d', ';', ',', ' ', '\t', '\n', '\r', '\x0b', '\x0c']

def location : Grammar := charsNotIn notInLocation
def ifword : Grammar := literal ['i', 'f']
def setword : Grammar := literal ['s', 'e', 't']

def modifier : Grammar :=
  choice (literal ['=']) (choice (literal ['~', '*']) (choice (literal ['~']) (literal ['^', '~'])))

/-! ### Rules -/

def grouped (rule : Grammar) : Grammar := group .list rule

def assignment : Grammar := seq key (seq (opt (seq space value)) semicolon)

def setblock : Grammar := seq setword (seq (many1 (seq space value2)) semicolon)

section Rules

variable (subblock : Grammar)

def ifblock : Grammar :=
  seq (grouped (seq ifword (seq (opt space) (seq (opt value) (skipTo '\x7b')))))
    (seq leftBracket (seq (grouped subblock) rightBracket))

def block : Grammar :=
  grouped (seq
    (grouped (seq key (seq (opt (seq space modifier)) (opt (seq space location)))))
    (seq leftBracket (seq (grouped subblock) rightBracket)))

def statement : Grammar :=
  choice (grouped assignment) (choice (block subblock)
    (choice (grouped (ifblock subblock)) setblock))

end Rules

def subblock : Nat → Grammar
  | 0, _input => none
  | depth + 1, input => many (statement (subblock depth)) input

def script (depth : Nat) : Grammar :=
  many1 (choice (grouped assignment) (block (subblock depth)))

/-- `str.expandtabs()` from a column on. -/
def expandtabs : Nat → List Char → List Char
  | _column, [] => []
  | column, '\t' :: rest =>
      List.replicate (8 - column % 8) ' ' ++ expandtabs (column + (8 - column % 8)) rest
  | column, char :: rest =>
      char :: expandtabs (if char == '\n' || char == '\r' then 0 else column + 1) rest

/-- Every level of nesting takes a bracket, so the length is depth enough. -/
def load (source : String) : Option (List Tree) :=
  let input := expandtabs 0 source.toList
  (script input.length input).map Prod.fst

end AutoBurst.Conf
