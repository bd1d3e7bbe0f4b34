/-
Writing a tree: `NginxDumper` of src/src/nginxParser.py.

The dumper looks at the shape of what it is given while it goes along; `none`
is an exception, from unpacking, indexing or joining what does not fit.
-/

import AutoBurst.Conf.Grammar

namespace AutoBurst.Conf

def spaces (count : Nat) : List Char := List.replicate count ' '

/-- `' '.join` of strings; a list among them is a `TypeError`. -/
def joinTexts : List Tree → Option (List Char)
  | [] => some []
  | [.text chars] => some chars
  | .text chars :: rest => (joinTexts rest).map fun joined => chars ++ ' ' :: joined
  | .list _ :: _ => none

/-- A string is iterated and joined character by character. -/
def characters (chars : List Char) : List Tree := chars.map fun char => .text [char]

mutual

/-- One iteration of the outer loop, `for key, values in blocks`. -/
def dumpBlock (indent : Nat) : Tree → Option (List (List Char))
  | .list [.list words, .list values] =>
      (joinTexts words).bind fun header =>
        (dumpParameters (indent + 4) values).map fun inner =>
          (if indent = 0 then [] else [[' ']]) ++ [spaces indent ++ header ++ [' ', '\x7b']] ++
            inner ++ [spaces indent ++ ['\x7d']]
  | .list [.list words, .text chars] =>
      (joinTexts words).map fun header =>
        (if indent = 0 then [] else [[' ']]) ++ [spaces indent ++ header ++ [' ', '\x7b']] ++
          (chars.map fun char => spaces (indent + 4) ++ [char, ';']) ++ [spaces indent ++ ['\x7d']]
  | .list [.text key, .text value] =>
      some ((if indent = 0 then [] else [[' ']]) ++
        [spaces indent ++ key ++ ' ' :: value ++ [';']])
  | .text [key, value] =>
      some ((if indent = 0 then [] else [[' ']]) ++ [spaces indent ++ [key, ' ', value, ';']])
  | _ => none

/-- The inner loop, `for parameter in values`. -/
def dumpParameters (indent : Nat) : List Tree → Option (List (List Char))
  | [] => some []
  | .list (.list words :: others) :: rest =>
      (dumpBlock indent (.list (.list words :: others))).bind fun here =>
        (dumpParameters indent rest).map fun later => here ++ later
  | .list (.text first :: others) :: rest =>
      (joinTexts (.text first :: others)).bind fun joined =>
        (dumpParameters indent rest).map fun later => (spaces indent ++ joined ++ [';']) :: later
  | .list [] :: _rest => none
  | .text [] :: _rest => none
  | .text (first :: others) :: rest =>
      (joinTexts (characters (first :: others))).bind fun joined =>
        (dumpParameters indent rest).map fun later => (spaces indent ++ joined ++ [';']) :: later

end

def dumpBlocks : List Tree → Option (List (List Char))
  | [] => some []
  | block :: rest =>
      (dumpBlock 0 block).bind fun here => (dumpBlocks rest).map fun later => here ++ later

/-- `to_file`: every line with a newline. -/
def dump (blocks : List Tree) : Option String :=
  (dumpBlocks blocks).map fun lines => String.ofList (lines.flatMap fun line => line ++ ['\n'])

end AutoBurst.Conf
