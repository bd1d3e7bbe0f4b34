/-
Reading the tokens of a configuration file: `ngx_conf_read_token` of
nginx/src/core/ngx_conf_file.c.

A character stands for a byte. The flags of the loop are fields of the reader;
`raw` is what lies between `start` and `b->pos`, and `found`, which is set and
cleared within one turn, is no field. The file is read through a buffer: the
number of bytes that are in it and not yet looked at is `avail`. Line numbers
and failing reads are left out.
-/

import Mathlib.Data.List.Basic
import Mathlib.Data.Nat.Basic

namespace AutoBurst.Nginx

/-- `NGX_CONF_BUFFER` -/
def confBuffer : Nat := 4096

abbrev Word := List Char

/-! ### Errors -/

inductive ConfError
  | endOfFile
  | tooLong (started : List Char)
  | tooLongQuoted (ch : Char)
  | unexpected (ch : Char)
  | endOfFileInBlock
  | notTerminated (name : Word)
  | noOpening (name : Word)
  | argumentCount (name : Word)
  | notAllowedHere (name : Word)
  | unknownDirective (name : Word)
  | refused (name : Word)
  | duplicateUpstream (host : Word)
  | noServers
  | invalidParameter (value : Word)
  | notSupported (value : Word)
  | inUpstream (reason : String) (url : Word)
deriving DecidableEq, Repr

/-- The text that is logged; a refusal is logged by the directive itself. -/
def ConfError.text : ConfError → String
  | .endOfFile => "unexpected end of file, expecting \";\" or \"\x7d\""
  | .tooLong started =>
      "too long parameter \"" ++ String.ofList (started.take 10) ++ "...\" started"
  | .tooLongQuoted ch =>
      "too long parameter, probably missing terminating \"" ++ String.ofList [ch] ++
        "\" character"
  | .unexpected ch => "unexpected \"" ++ String.ofList [ch] ++ "\""
  | .endOfFileInBlock => "unexpected end of file, expecting \"\x7d\""
  | .notTerminated name => "directive \"" ++ String.ofList name ++ "\" is not terminated by \";\""
  | .noOpening name => "directive \"" ++ String.ofList name ++ "\" has no opening \"\x7b\""
  | .argumentCount name =>
      "invalid number of arguments in \"" ++ String.ofList name ++ "\" directive"
  | .notAllowedHere name => "\"" ++ String.ofList name ++ "\" directive is not allowed here"
  | .unknownDirective name => "unknown directive \"" ++ String.ofList name ++ "\""
  | .refused _name => ""
  | .duplicateUpstream host => "duplicate upstream \"" ++ String.ofList host ++ "\""
  | .noServers => "no servers are inside upstream"
  | .invalidParameter value => "invalid parameter \"" ++ String.ofList value ++ "\""
  | .notSupported value =>
      "balancing method does not support parameter \"" ++ String.ofList value ++ "\""
  | .inUpstream reason url => reason ++ " in upstream \"" ++ String.ofList url ++ "\""

/-! ### Tokens -/

inductive TokenRc
  | ok
  | blockStart
  | blockDone
  | fileDone
  | error (reason : ConfError)
deriving DecidableEq, Repr

/-- What one call leaves behind: its code and `cf->args`. -/
structure ConfToken where
  rc : TokenRc
  args : List Word
deriving DecidableEq, Repr

structure ConfReader where
  args : List Word
  raw : List Char
  needSpace : Bool
  lastSpace : Bool
  sharpComment : Bool
  isVariable : Bool
  quoted : Bool
  sQuoted : Bool
  dQuoted : Bool
deriving DecidableEq, Repr

def ConfReader.start : ConfReader :=
  { args := []
    raw := []
    needSpace := false
    lastSpace := true
    sharpComment := false
    isVariable := false
    quoted := false
    sQuoted := false
    dQuoted := false }

def confSpace (ch : Char) : Bool := ch == ' ' || ch == '\t' || ch == '\r' || ch == '\n'

def unescape : List Char → Word
  | '\\' :: '"' :: rest => '"' :: unescape rest
  | '\\' :: '\'' :: rest => '\'' :: unescape rest
  | '\\' :: '\\' :: rest => '\\' :: unescape rest
  | '\\' :: 't' :: rest => '\t' :: unescape rest
  | '\\' :: 'r' :: rest => '\r' :: unescape rest
  | '\\' :: 'n' :: rest => '\n' :: unescape rest
  | ch :: rest => ch :: unescape rest
  | [] => []

/-! ### One turn of the loop -/

inductive Turn
  | more (reader : ConfReader)
  | done (token : ConfToken)
deriving DecidableEq, Repr

def ConfReader.fail (reader : ConfReader) (reason : ConfError) : Turn :=
  .done { rc := .error reason, args := reader.args }

/-- Between words: the branch under `last_space`. -/
def ConfReader.atSpace (reader : ConfReader) (ch : Char) : Turn :=
  let begun := { reader with raw := [ch] }
  if confSpace ch then .more begun
  else if ch == ';' || ch == '\x7b' then
    if begun.args.isEmpty then begun.fail (.unexpected ch)
    else if ch == '\x7b' then .done { rc := .blockStart, args := begun.args }
    else .done { rc := .ok, args := begun.args }
  else if ch == '\x7d' then
    if begun.args.isEmpty then .done { rc := .blockDone, args := begun.args }
    else begun.fail (.unexpected ch)
  else if ch == '#' then .more { begun with sharpComment := true }
  else if ch == '\\' then .more { begun with quoted := true, lastSpace := false }
  else if ch == '"' then .more { begun with raw := [], dQuoted := true, lastSpace := false }
  else if ch == '\'' then .more { begun with raw := [], sQuoted := true, lastSpace := false }
  else if ch == '$' then .more { begun with isVariable := true, lastSpace := false }
  else .more { begun with lastSpace := false }

/-- The word from `start` to the character before `ch` is complete. -/
def ConfReader.push (reader : ConfReader) (ch : Char) : Turn :=
  let pushed := { reader with
    args := reader.args ++ [unescape reader.raw]
    raw := reader.raw ++ [ch] }
  if ch == ';' then .done { rc := .ok, args := pushed.args }
  else if ch == '\x7b' then .done { rc := .blockStart, args := pushed.args }
  else .more pushed

def ConfReader.inWord (reader : ConfReader) (ch : Char) : Turn :=
  let passed := { reader with raw := reader.raw ++ [ch] }
  if ch == '\x7b' && reader.isVariable then .more passed
  else if ch == '\\' then .more { passed with isVariable := false, quoted := true }
  else if ch == '$' then .more { passed with isVariable := true }
  else if reader.dQuoted then
    if ch == '"' then
      ConfReader.push { reader with isVariable := false, dQuoted := false, needSpace := true } ch
    else .more { passed with isVariable := false }
  else if reader.sQuoted then
    if ch == '\'' then
      ConfReader.push { reader with isVariable := false, sQuoted := false, needSpace := true } ch
    else .more { passed with isVariable := false }
  else if confSpace ch || ch == ';' || ch == '\x7b' then
    ConfReader.push { reader with isVariable := false, lastSpace := true } ch
  else .more { passed with isVariable := false }

/-- After a closing quote only a blank or the end of the directive may follow,
or a bracket, which begins a word. -/
def ConfReader.afterQuote (reader : ConfReader) (ch : Char) : Turn :=
  if confSpace ch then
    .more { reader with raw := reader.raw ++ [ch], lastSpace := true, needSpace := false }
  else if ch == ';' then .done { rc := .ok, args := reader.args }
  else if ch == '\x7b' then .done { rc := .blockStart, args := reader.args }
  else if ch == ')' then
    ConfReader.atSpace { reader with lastSpace := true, needSpace := false } ch
  else reader.fail (.unexpected ch)

def ConfReader.read (reader : ConfReader) (ch : Char) : Turn :=
  if reader.sharpComment && ch != '\n' then .more { reader with raw := reader.raw ++ [ch] }
  else
    let reader := { reader with sharpComment := false }
    if reader.quoted then .more { reader with raw := reader.raw ++ [ch], quoted := false }
    else if reader.needSpace then reader.afterQuote ch
    else if reader.lastSpace then reader.atSpace ch
    else reader.inWord ch

/-! ### All calls over a file -/

def ConfReader.atEnd (reader : ConfReader) : ConfToken :=
  if reader.args.isEmpty && reader.lastSpace then { rc := .fileDone, args := reader.args }
  else { rc := .error .endOfFile, args := reader.args }

def ConfReader.overlong (reader : ConfReader) : ConfToken :=
  { rc := .error
      (if reader.dQuoted then .tooLongQuoted '"'
      else if reader.sQuoted then .tooLongQuoted '\''
      else .tooLong reader.raw)
    args := reader.args }

/-- The calls made one after the other, each where the last one stopped, until
the file is done or a call fails. A call that finds the buffer used up moves
what it has begun to the front and fills the rest of the buffer from the file.
The bytes moved to the front are those of `reader.raw`, those not looked at yet
are the first `avail` of the list, so of the buffer itself only the count is kept. -/
def readTokens (reader : ConfReader) (avail : Nat) : List Char → List ConfToken
  | [] => [reader.atEnd]
  | ch :: rest =>
      if avail = 0 ∧ reader.raw.length = confBuffer then [reader.overlong]
      else
        let filled :=
          if avail = 0 then min (rest.length + 1) (confBuffer - reader.raw.length) else avail
        match reader.read ch with
        | .more next => readTokens next (filled - 1) rest
        | .done token =>
            match token.rc with
            | .error _ => [token]
            | _ => token :: readTokens .start (filled - 1) rest

def readFile (file : List Char) : List ConfToken := readTokens .start 0 file

/-! ### The buffer does not show -/

/-- The same calls over a file held as a whole: only the length of what was
begun is looked at. -/
def spanTokens (reader : ConfReader) : List Char → List ConfToken
  | [] => [reader.atEnd]
  | ch :: rest =>
      if reader.raw.length = confBuffer then [reader.overlong]
      else
        match reader.read ch with
        | .more next => spanTokens next rest
        | .done token =>
            match token.rc with
            | .error _ => [token]
            | _ => token :: spanTokens .start rest

private theorem atSpace_raw_le {reader next : ConfReader} {ch : Char}
    (turn : reader.atSpace ch = .more next) : next.raw.length ≤ 1 := by
  unfold ConfReader.atSpace ConfReader.fail at turn
  dsimp only at turn
  split_ifs at turn <;> cases turn <;> simp only [List.length_cons, List.length_nil] <;> omega

private theorem push_raw_le {reader next : ConfReader} {ch : Char}
    (turn : reader.push ch = .more next) : next.raw.length ≤ reader.raw.length + 1 := by
  unfold ConfReader.push at turn
  dsimp only at turn
  split_ifs at turn
  cases turn
  rw [List.length_append, List.length_singleton]

private theorem inWord_raw_le {reader next : ConfReader} {ch : Char}
    (turn : reader.inWord ch = .more next) : next.raw.length ≤ reader.raw.length + 1 := by
  have longer : (reader.raw ++ [ch]).length ≤ reader.raw.length + 1 := by
    rw [List.length_append, List.length_singleton]
  unfold ConfReader.inWord at turn
  dsimp only at turn
  split_ifs at turn
  · exact Turn.more.inj turn ▸ longer
  · exact Turn.more.inj turn ▸ longer
  · exact Turn.more.inj turn ▸ longer
  · have grown := push_raw_le turn
    exact grown
  · exact Turn.more.inj turn ▸ longer
  · have grown := push_raw_le turn
    exact grown
  · exact Turn.more.inj turn ▸ longer
  · have grown := push_raw_le turn
    exact grown
  · exact Turn.more.inj turn ▸ longer

private theorem afterQuote_raw_le {reader next : ConfReader} {ch : Char}
    (turn : reader.afterQuote ch = .more next) : next.raw.length ≤ reader.raw.length + 1 := by
  unfold ConfReader.afterQuote ConfReader.fail at turn
  split_ifs at turn
  · cases turn
    rw [List.length_append, List.length_singleton]
  · exact Nat.le_trans (atSpace_raw_le turn) (Nat.le_add_left 1 _)

/-- A turn makes what was begun longer by at most the character it reads. -/
theorem read_raw_le {reader next : ConfReader} {ch : Char}
    (turn : reader.read ch = .more next) : next.raw.length ≤ reader.raw.length + 1 := by
  unfold ConfReader.read at turn
  dsimp only at turn
  split_ifs at turn
  · cases turn
    rw [List.length_append, List.length_singleton]
  · cases turn
    rw [List.length_append, List.length_singleton]
  · have grown := afterQuote_raw_le turn
    exact grown
  · exact Nat.le_trans (atSpace_raw_le turn) (Nat.le_add_left 1 _)
  · have grown := inWord_raw_le turn
    exact grown

/-- What was begun and what is still to be looked at fit into the buffer
together, so a full span meets an empty buffer. -/
theorem readTokens_eq_spanTokens (reader : ConfReader) (avail : Nat) (input : List Char)
    (fits : avail + reader.raw.length ≤ confBuffer) :
    readTokens reader avail input = spanTokens reader input := by
  induction input generalizing reader avail with
  | nil => rfl
  | cons ch rest ih =>
      unfold readTokens spanTokens
      by_cases full : reader.raw.length = confBuffer
      · rw [if_pos ⟨by omega, full⟩, if_pos full]
      · rw [if_neg (fun both => full both.2), if_neg full]
        dsimp only
        generalize filling : (if avail = 0 then
          min (rest.length + 1) (confBuffer - reader.raw.length) else avail) = filled
        have some : 1 ≤ filled ∧ filled + reader.raw.length ≤ confBuffer := by
          split at filling <;> omega
        cases turn : reader.read ch with
        | more next =>
            have grown := read_raw_le turn
            exact ih next (filled - 1) (by omega)
        | done token =>
            have again := ih .start (filled - 1) (by
              change filled - 1 + 0 ≤ confBuffer
              omega)
            dsimp only
            rw [again]

/-- Where the buffer is refilled does not show in the tokens. -/
theorem readFile_eq_spanTokens (file : List Char) : readFile file = spanTokens .start file :=
  readTokens_eq_spanTokens .start 0 file (by decide)

/-! ### Reading a text piece by piece -/

/-- The tokens completed within a piece of text and the state after it; `none`
if a call fails there. -/
def spanRun (reader : ConfReader) : List Char → Option (List ConfToken × ConfReader)
  | [] => some ([], reader)
  | ch :: rest =>
      if reader.raw.length = confBuffer then none
      else
        match reader.read ch with
        | .more next => spanRun next rest
        | .done token =>
            match token.rc with
            | .error _ => none
            | _ => (spanRun .start rest).map fun later => (token :: later.1, later.2)

theorem spanTokens_append {reader after : ConfReader} {text : List Char}
    {tokens : List ConfToken} (ran : spanRun reader text = some (tokens, after))
    (rest : List Char) : spanTokens reader (text ++ rest) = tokens ++ spanTokens after rest := by
  induction text generalizing reader tokens with
  | nil =>
      cases ran
      rfl
  | cons ch others ih =>
      rw [spanRun] at ran
      rw [List.cons_append, spanTokens]
      split at ran
      · cases ran
      · rename_i room
        rw [if_neg room]
        cases turn : reader.read ch with
        | more next =>
            rw [turn] at ran
            exact ih ran
        | done token =>
            rw [turn] at ran
            dsimp only at ran ⊢
            cases rc : token.rc with
            | error reason =>
                rw [rc] at ran
                cases ran
            | ok | blockStart | blockDone | fileDone =>
                rw [rc] at ran
                obtain ⟨later, ranLater, same⟩ := Option.map_eq_some_iff.mp ran
                cases same
                dsimp only
                rw [ih ranLater, List.cons_append]

/-! ### Words without marks -/

def ConfReader.between (args : List Word) (raw : List Char) : ConfReader :=
  { ConfReader.start with args := args, raw := raw }

def ConfReader.within (args : List Word) (raw : List Char) : ConfReader :=
  { ConfReader.start with args := args, raw := raw, lastSpace := false }

def plainChar (ch : Char) : Bool :=
  !confSpace ch && !(([';', '\x7b', '\\', '$'] : List Char).contains ch)

/-- A word that stands for itself: no mark ends it, escapes in it or, at its
beginning, changes how it is read. -/
def plainWord : Word → Bool
  | [] => false
  | ch :: rest =>
      !((['\x7d', '#', '"', '\''] : List Char).contains ch) && (ch :: rest).all plainChar

structure PlainChar (ch : Char) : Prop where
  noSpace : confSpace ch = false
  noSemicolon : (ch == ';') = false
  noBrace : (ch == '\x7b') = false
  noBackslash : (ch == '\\') = false
  noDollar : (ch == '$') = false

theorem plainChar_iff {ch : Char} : plainChar ch = true ↔ PlainChar ch := by
  unfold plainChar
  simp only [Bool.and_eq_true, Bool.not_eq_true', List.contains_eq_mem, List.mem_cons,
    List.not_mem_nil, or_false, decide_eq_false_iff_not, not_or]
  constructor
  · intro both
    obtain ⟨space, semicolon, brace, backslash, dollar⟩ := both
    exact ⟨space, beq_eq_false_iff_ne.mpr semicolon, beq_eq_false_iff_ne.mpr brace,
      beq_eq_false_iff_ne.mpr backslash, beq_eq_false_iff_ne.mpr dollar⟩
  · intro plain
    exact ⟨plain.noSpace, beq_eq_false_iff_ne.mp plain.noSemicolon,
      beq_eq_false_iff_ne.mp plain.noBrace, beq_eq_false_iff_ne.mp plain.noBackslash,
      beq_eq_false_iff_ne.mp plain.noDollar⟩

section PlainWords

variable {args : List Word} {raw : List Char} {ch : Char}

theorem read_within (plain : PlainChar ch) :
    (ConfReader.within args raw).read ch = .more (.within args (raw ++ [ch])) := by
  simp [ConfReader.read, ConfReader.within, ConfReader.start, ConfReader.inWord, plain.noSpace,
    plain.noSemicolon, plain.noBrace, plain.noBackslash, plain.noDollar]

theorem read_begin (plain : PlainChar ch)
    (unmarked : ch ∉ (['\x7d', '#', '"', '\''] : List Char)) :
    (ConfReader.between args raw).read ch = .more (.within args [ch]) := by
  simp only [List.mem_cons, List.not_mem_nil, or_false, not_or] at unmarked
  obtain ⟨noClose, noSharp, noQuote, noApostrophe⟩ := unmarked
  simp [ConfReader.read, ConfReader.between, ConfReader.within, ConfReader.start,
    ConfReader.atSpace, plain.noSpace, plain.noSemicolon, plain.noBrace, plain.noBackslash,
    plain.noDollar, noClose, noSharp, noQuote, noApostrophe]

private theorem space_cases (space : confSpace ch = true) :
    ch = ' ' ∨ ch = '\t' ∨ ch = '\r' ∨ ch = '\n' := by
  unfold confSpace at space
  simpa only [Bool.or_eq_true, beq_iff_eq, or_assoc] using space

theorem read_end (space : confSpace ch = true) :
    (ConfReader.within args raw).read ch =
      .more (.between (args ++ [unescape raw]) (raw ++ [ch])) := by
  rcases space_cases space with rfl | rfl | rfl | rfl <;> rfl

theorem read_semicolon :
    (ConfReader.within args raw).read ';' = .done ⟨.ok, args ++ [unescape raw]⟩ :=
  rfl

theorem unescape_plain {word : Word} (plain : word.all plainChar = true) :
    unescape word = word := by
  induction word with
  | nil => rfl
  | cons ch rest ih =>
      rw [List.all_cons, Bool.and_eq_true] at plain
      have noBackslash := beq_eq_false_iff_ne.mp (plainChar_iff.mp plain.1).noBackslash
      rw [unescape, ih plain.2]
      all_goals
        intro others same
        exact absurd same noBackslash

theorem spanRun_more {reader next : ConfReader} (room : reader.raw.length ≠ confBuffer)
    (turn : reader.read ch = .more next) (rest : List Char) :
    spanRun reader (ch :: rest) = spanRun next rest := by
  rw [spanRun, if_neg room, turn]

private theorem spanRun_within {word : Word} (plain : word.all plainChar = true)
    (room : raw.length + word.length ≤ confBuffer) (rest : List Char) :
    spanRun (.within args raw) (word ++ rest) = spanRun (.within args (raw ++ word)) rest := by
  induction word generalizing raw with
  | nil => rw [List.append_nil, List.nil_append]
  | cons ch others ih =>
      rw [List.all_cons, Bool.and_eq_true] at plain
      rw [List.length_cons] at room
      have turn : (ConfReader.within args raw).read ch = _ :=
        read_within (plainChar_iff.mp plain.1)
      have here : (ConfReader.within args raw).raw.length ≠ confBuffer := by
        change raw.length ≠ confBuffer
        omega
      rw [List.cons_append, spanRun_more here turn, ih plain.2, List.append_assoc]
      · rfl
      · rw [List.length_append, List.length_singleton]
        omega

private theorem plainWord_cons {word : Word} (plain : plainWord word = true) :
    ∃ ch others, word = ch :: others ∧ ch ∉ (['\x7d', '#', '"', '\''] : List Char) ∧
      PlainChar ch ∧ word.all plainChar = true := by
  cases word with
  | nil => cases plain
  | cons ch others =>
      unfold plainWord at plain
      rw [Bool.and_eq_true, Bool.not_eq_true', List.contains_eq_mem,
        decide_eq_false_iff_not] at plain
      have first := (Bool.and_eq_true_iff.mp (List.all_cons ▸ plain.2)).1
      exact ⟨ch, others, rfl, plain.1, plainChar_iff.mp first, plain.2⟩

/-- A word between two blanks. -/
theorem spanRun_word {word : Word} (plain : plainWord word = true)
    (fits : word.length < confBuffer) (room : raw.length ≠ confBuffer) (rest : List Char) :
    spanRun (.between args raw) (word ++ ' ' :: rest) =
      spanRun (.between (args ++ [word]) (word ++ [' '])) rest := by
  obtain ⟨ch, others, rfl, unmarked, first, all⟩ := plainWord_cons plain
  have begun : (ConfReader.between args raw).read ch = _ := read_begin first unmarked
  have ended : (ConfReader.within args (ch :: others)).read ' ' = _ := read_end rfl
  have later : others.all plainChar = true := (Bool.and_eq_true_iff.mp (List.all_cons ▸ all)).2
  have short : [ch].length + others.length ≤ confBuffer := by
    rw [List.length_cons] at fits
    rw [List.length_singleton]
    omega
  rw [List.cons_append, spanRun_more room begun, spanRun_within later short]
  change spanRun (ConfReader.within args (ch :: others)) (' ' :: rest) = _
  rw [spanRun_more (Nat.ne_of_lt fits) ended, unescape_plain all]

private theorem spanTokens_full (full : raw.length = confBuffer) (word rest : List Char) :
    spanTokens (.within args raw) (word ++ ';' :: rest) =
      if (raw ++ word).length < confBuffer then
        ⟨.ok, args ++ [raw ++ word]⟩ :: spanTokens .start rest
      else [⟨.error (.tooLong ((raw ++ word).take confBuffer)), args⟩] := by
  have reached : (ConfReader.within args raw).raw.length = confBuffer := full
  have long : ¬(raw ++ word).length < confBuffer := by
    rw [List.length_append]
    omega
  rw [if_neg long, ← full, List.take_left]
  cases word with
  | nil =>
      rw [List.nil_append, spanTokens, if_pos reached]
      rfl
  | cons ch others =>
      rw [List.cons_append, spanTokens, if_pos reached]
      rfl

private theorem spanTokens_within {word : Word} (plain : (raw ++ word).all plainChar = true)
    (room : raw.length ≤ confBuffer) (rest : List Char) :
    spanTokens (.within args raw) (word ++ ';' :: rest) =
      if (raw ++ word).length < confBuffer then
        ⟨.ok, args ++ [raw ++ word]⟩ :: spanTokens .start rest
      else [⟨.error (.tooLong ((raw ++ word).take confBuffer)), args⟩] := by
  induction word generalizing raw with
  | nil =>
      rcases Nat.eq_or_lt_of_le room with full | below
      · exact spanTokens_full full [] rest
      · have more : (ConfReader.within args raw).raw.length ≠ confBuffer := Nat.ne_of_lt below
        rw [List.append_nil] at plain
        rw [List.append_nil, List.nil_append, spanTokens, if_neg more, read_semicolon,
          if_pos below, unescape_plain plain]
  | cons ch others ih =>
      rcases Nat.eq_or_lt_of_le room with full | below
      · exact spanTokens_full full (ch :: others) rest
      · have more : (ConfReader.within args raw).raw.length ≠ confBuffer := Nat.ne_of_lt below
        have first : plainChar ch = true := by
          rw [List.all_append, Bool.and_eq_true, List.all_cons, Bool.and_eq_true] at plain
          exact plain.2.1
        have longer : (raw ++ [ch]).length ≤ confBuffer := by
          rw [List.length_append, List.length_singleton]
          exact below
        have regrouped : raw ++ ch :: others = (raw ++ [ch]) ++ others := by
          rw [List.append_assoc, List.singleton_append]
        rw [List.cons_append, spanTokens, if_neg more, read_within (plainChar_iff.mp first)]
        rw [regrouped] at plain ⊢
        exact ih plain longer

/-- The last word of a directive; it has to fit into the buffer with the mark
that ends it. -/
theorem spanTokens_last {word : Word} (plain : plainWord word = true)
    (room : raw.length ≠ confBuffer) (rest : List Char) :
    spanTokens (.between args raw) (word ++ ';' :: rest) =
      if word.length < confBuffer then ⟨.ok, args ++ [word]⟩ :: spanTokens .start rest
      else [⟨.error (.tooLong (word.take confBuffer)), args⟩] := by
  obtain ⟨ch, others, rfl, unmarked, first, all⟩ := plainWord_cons plain
  have here : (ConfReader.between args raw).raw.length ≠ confBuffer := room
  have single : [ch].length ≤ confBuffer := Nat.succ_le_succ (Nat.zero_le _)
  rw [List.cons_append, spanTokens, if_neg here, read_begin first unmarked]
  exact spanTokens_within all single rest

end PlainWords

end AutoBurst.Nginx
