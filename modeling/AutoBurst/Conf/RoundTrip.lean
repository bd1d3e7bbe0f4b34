/-
Loading what was dumped. The parser, started on the blanks in front of an
entry, takes that entry and nothing more, whatever follows; a block needs a
depth of nesting that its own text is always long enough for.
-/

import AutoBurst.Conf.Entries

namespace AutoBurst.Conf

open Peg

/-! ### Characters -/

theorem solid_of_keyChar {char : Char} (allowed : keyChar char = true) : Solid char := by
  have differs {other : Char} (forbidden : keyChar other = false) : char ≠ other := by
    rintro rfl
    rw [allowed] at forbidden
    cases forbidden
  refine ⟨?_, differs rfl⟩
  unfold blank
  rw [beq_false_of_ne (differs rfl), beq_false_of_ne (differs rfl), beq_false_of_ne (differs rfl),
    beq_false_of_ne (differs rfl)]
  rfl

theorem solid_open : Solid '\x7b' := ⟨rfl, by decide⟩
theorem solid_close : Solid '\x7d' := ⟨rfl, by decide⟩
theorem solid_semicolon : Solid ';' := ⟨rfl, by decide⟩

theorem blanks_spaces (count : Nat) : Blanks (spaces count) := by
  intro char member
  rw [List.eq_of_mem_replicate member]
  rfl

theorem blanks_lead (indent : Nat) (entry : Entry) : Blanks (entry.lead indent) := by
  cases entry with
  | directive key value => exact blanks_spaces indent
  | block key location body =>
      apply Blanks.append _ (blanks_spaces indent)
      split
      · exact not_blank_nil
      · exact Blanks.append blanks_space blanks_newline

/-! ### Keys and headers -/

section Directives

variable {blanks rest : List Char}

theorem key_eq (name : Key) (all : Blanks blanks)
    (stops : ∀ other ∈ rest.head?, keyChar other = false) :
    key (blanks ++ (name.chars ++ rest)) = some ([.text name.chars], rest) :=
  word_eq all (solid_of_keyChar (name.allowed name.first List.mem_cons_self)) name.allowed stops

theorem key_space (name : Key) (all : Blanks blanks) :
    key (blanks ++ (name.chars ++ ' ' :: rest)) = some ([.text name.chars], ' ' :: rest) :=
  key_eq name all (by rintro other ⟨⟩; rfl)

theorem modifier_none {char : Char} (solid : Solid char)
    (plain : char ≠ '=' ∧ char ≠ '~' ∧ char ≠ '^') : modifier (char :: rest) = none := by
  have missing {expected : Char} {chars : List Char} (other : expected ≠ char) :
      literal (expected :: chars) (char :: rest) = none :=
    literal_none not_blank_nil solid other
  unfold modifier
  rw [choice_second (missing plain.1.symm), choice_second (missing plain.2.1.symm),
    choice_second (missing plain.2.1.symm)]
  exact missing plain.2.2.symm

private theorem value_allowed {char : Char} (allowed : notInLocation.contains char = false) :
    ['\x7b', '\x7d', ';'].contains char = false := by
  rw [List.contains_eq_mem, decide_eq_false_iff_not] at allowed ⊢
  intro member
  exact allowed (List.mem_append_left [',', ' ', '\t', '\n', '\r', '\x0b', '\x0c'] member)

theorem assignment_eq (name : Key) (more : Option Value) (all : Blanks blanks) :
    assignment (blanks ++ (joined name (more.map Value.chars) ++ ';' :: rest)) =
      some (words name (more.map Value.chars), rest) := by
  have closed : semicolon (';' :: rest) = some ([], rest) :=
    suppress_eq (literal_eq not_blank_nil solid_semicolon)
  cases more with
  | none =>
      have named : key (blanks ++ (name.chars ++ ';' :: rest)) =
          some ([.text name.chars], ';' :: rest) :=
        key_eq name all (by rintro other ⟨⟩; rfl)
      have empty : opt (seq space value) (';' :: rest) = some ([], ';' :: rest) :=
        opt_none (seq_none (space_none solid_semicolon))
      change assignment (blanks ++ ((name.chars ++ []) ++ ';' :: rest)) = _
      rw [List.append_nil]
      exact seq_eq named (seq_eq empty closed)
  | some content =>
      have valued : value (content.chars ++ ';' :: rest) =
          some ([.text content.chars], ';' :: rest) :=
        charsNotIn_eq content.solid content.allowed (by rintro other ⟨⟩; rfl)
      have taken : opt (seq space value) (' ' :: (content.chars ++ ';' :: rest)) =
          some ([.text content.chars], ';' :: rest) :=
        opt_eq (seq_eq (space_eq content.solid) valued)
      change assignment (blanks ++ ((name.chars ++ ' ' :: content.chars) ++ ';' :: rest)) = _
      rw [List.append_assoc]
      exact seq_eq (key_space name all) (seq_eq taken closed)

def heading : Grammar :=
  grouped (seq key (seq (opt (seq space modifier)) (opt (seq space location))))

theorem heading_eq (name : Key) (more : Option Location) (all : Blanks blanks) :
    heading (blanks ++ (joined name (more.map Location.chars) ++ ' ' :: '\x7b' :: rest)) =
      some ([.list (words name (more.map Location.chars))], ' ' :: '\x7b' :: rest) := by
  cases more with
  | none =>
      have spaced : space (' ' :: '\x7b' :: rest) = some ([], '\x7b' :: rest) := space_eq solid_open
      have unmodified : opt (seq space modifier) (' ' :: '\x7b' :: rest) =
          some ([], ' ' :: '\x7b' :: rest) :=
        opt_none (seq_none_second spaced (modifier_none solid_open (by decide)))
      have unlocated : opt (seq space location) (' ' :: '\x7b' :: rest) =
          some ([], ' ' :: '\x7b' :: rest) :=
        opt_none (seq_none_second spaced (charsNotIn_none solid_open rfl))
      change heading (blanks ++ ((name.chars ++ []) ++ ' ' :: '\x7b' :: rest)) = _
      rw [List.append_nil]
      exact group_eq Tree.list (seq_eq (key_space name all) (seq_eq unmodified unlocated))
  | some place =>
      have spaced : space (' ' :: (place.chars ++ ' ' :: '\x7b' :: rest)) =
          some ([], place.chars ++ ' ' :: '\x7b' :: rest) :=
        space_eq place.solid
      have unmodified : opt (seq space modifier) (' ' :: (place.chars ++ ' ' :: '\x7b' :: rest)) =
          some ([], ' ' :: (place.chars ++ ' ' :: '\x7b' :: rest)) :=
        opt_none (seq_none_second spaced (modifier_none place.solid place.plain))
      have found : location (place.chars ++ ' ' :: '\x7b' :: rest) =
          some ([.text place.chars], ' ' :: '\x7b' :: rest) :=
        charsNotIn_eq place.solid place.allowed (by rintro other ⟨⟩; rfl)
      have located : opt (seq space location) (' ' :: (place.chars ++ ' ' :: '\x7b' :: rest)) =
          some ([.text place.chars], ' ' :: '\x7b' :: rest) :=
        opt_eq (seq_eq spaced found)
      change heading (blanks ++ ((name.chars ++ ' ' :: place.chars) ++ ' ' :: '\x7b' :: rest)) = _
      rw [List.append_assoc]
      exact group_eq Tree.list (seq_eq (key_space name all) (seq_eq unmodified located))

/-- A heading is no directive: the bracket stands where the semicolon should. -/
theorem assignment_heading (name : Key) (more : Option Location) (all : Blanks blanks) :
    assignment (blanks ++ (joined name (more.map Location.chars) ++ ' ' :: '\x7b' :: rest)) =
      none := by
  cases more with
  | none =>
      have spaced : space (' ' :: '\x7b' :: rest) = some ([], '\x7b' :: rest) := space_eq solid_open
      have empty : opt (seq space value) (' ' :: '\x7b' :: rest) =
          some ([], ' ' :: '\x7b' :: rest) :=
        opt_none (seq_none_second spaced (charsNotIn_none solid_open rfl))
      have unclosed : semicolon (' ' :: '\x7b' :: rest) = none :=
        suppress_none (literal_none blanks_space solid_open (by decide))
      change assignment (blanks ++ ((name.chars ++ []) ++ ' ' :: '\x7b' :: rest)) = _
      rw [List.append_nil]
      exact seq_none_second (key_space name all) (seq_none_second empty unclosed)
  | some place =>
      have allowed : ∀ other ∈ place.first :: (place.others ++ [' ']),
          ['\x7b', '\x7d', ';'].contains other = false := by
        intro other member
        rw [← List.cons_append, List.mem_append, List.mem_singleton] at member
        cases member with
        | inl inside => exact value_allowed (place.allowed other inside)
        | inr equal =>
            rw [equal]
            rfl
      have valued : value (place.first :: ((place.others ++ [' ']) ++ '\x7b' :: rest)) =
          some ([.text (place.first :: (place.others ++ [' ']))], '\x7b' :: rest) :=
        charsNotIn_eq place.solid allowed (by rintro other ⟨⟩; rfl)
      rw [List.append_assoc] at valued
      have taken : opt (seq space value) (' ' :: (place.chars ++ ' ' :: '\x7b' :: rest)) =
          some ([.text (place.first :: (place.others ++ [' ']))], '\x7b' :: rest) :=
        opt_eq (seq_eq (space_eq place.solid) valued)
      have unclosed : semicolon ('\x7b' :: rest) = none :=
        suppress_none (literal_none not_blank_nil solid_open (by decide))
      change assignment
        (blanks ++ ((name.chars ++ ' ' :: place.chars) ++ ' ' :: '\x7b' :: rest)) = _
      rw [List.append_assoc]
      exact seq_none_second (key_space name all) (seq_none_second taken unclosed)

end Directives

/-! ### Entries -/

section Entries

variable {blanks rest : List Char}

def directiveOrBlock (inner : Grammar) : Grammar := choice (grouped assignment) (block inner)

theorem statement_choice (inner : Grammar) :
    statement inner =
      choice (directiveOrBlock inner) (choice (grouped (ifblock inner)) setblock) :=
  (choice_assoc _).symm

theorem directiveOrBlock_none (inner : Grammar) {input : List Char} (unnamed : key input = none) :
    directiveOrBlock inner input = none := by
  have undirected : grouped assignment input = none := group_none Tree.list (seq_none unnamed)
  have unheaded : heading input = none := group_none Tree.list (seq_none unnamed)
  have unblocked : block inner input = none := group_none Tree.list (seq_none unheaded)
  unfold directiveOrBlock
  rw [choice_second undirected, unblocked]

/-- Where a block ends, no further statement starts. -/
theorem statement_close (inner : Grammar) (all : Blanks blanks) :
    statement inner (blanks ++ '\x7d' :: rest) = none := by
  have unnamed : key (blanks ++ '\x7d' :: rest) = none := word_none all solid_close rfl
  have noIf : ifword (blanks ++ '\x7d' :: rest) = none := literal_none all solid_close (by decide)
  have noSet : setword (blanks ++ '\x7d' :: rest) = none := literal_none all solid_close (by decide)
  have unguarded : grouped (ifblock inner) (blanks ++ '\x7d' :: rest) = none :=
    group_none Tree.list (seq_none (group_none Tree.list (seq_none noIf)))
  rw [statement_choice, choice_second (directiveOrBlock_none inner unnamed),
    choice_second unguarded]
  exact seq_none noSet

theorem core_length_lt (indent : Nat) (key : Key) (location : Option Location) {body : List Entry}
    {entry : Entry} (member : entry ∈ body) :
    (entry.core (indent + 4)).length < ((Entry.block key location body).core indent).length := by
  obtain ⟨before, after, rfl⟩ := List.append_of_mem member
  rw [core_block, List.flatMap_append, List.flatMap_cons]
  simp only [Entry.text, List.length_append, List.length_cons]
  omega

def Entry.Loads (entry : Entry) : Prop :=
  ∀ indent depth, (entry.core indent).length ≤ depth → ∀ blanks rest, Blanks blanks →
    directiveOrBlock (subblock depth) (blanks ++ (entry.core indent ++ rest)) =
      some ([entry.tree], rest)

theorem subblock_eq {body : List Entry} (each : ∀ entry ∈ body, entry.Loads) {indent depth : Nat}
    (enough : ∀ entry ∈ body, (entry.core indent).length ≤ depth) (all : Blanks blanks) :
    subblock (depth + 1) ((body.flatMap fun entry => '\n' :: entry.text indent) ++
        (blanks ++ '\x7d' :: rest)) =
      some (body.map Entry.tree, blanks ++ '\x7d' :: rest) := by
  have read : ∀ entry ∈ body, ∀ rest,
      statement (subblock depth) (('\n' :: entry.text indent) ++ rest) =
        some ([entry.tree], rest) := by
    intro entry member rest
    have taken := each entry member indent depth (enough entry member)
      ('\n' :: entry.lead indent) rest (Blanks.append blanks_newline (blanks_lead indent entry))
    rw [statement_choice]
    apply choice_eq
    rw [Entry.text, List.cons_append, List.append_assoc]
    exact taken
  have stops : statement (subblock depth) (blanks ++ '\x7d' :: rest) = none :=
    statement_close (subblock depth) all
  have whole := many_eq (fun entry => '\n' :: entry.text indent) (fun entry => [entry.tree]) body
    read (fun entry _member => List.cons_ne_nil '\n' (entry.text indent)) stops
  rw [← List.map_eq_flatMap] at whole
  exact whole

theorem block_eq {inner : Grammar} (name : Key) (more : Option Location) {content after : List Char}
    {tokens : List Tree} (all : Blanks blanks) (indented : Blanks after)
    (taken : inner (content ++ (after ++ '\x7d' :: rest)) =
      some (tokens, after ++ '\x7d' :: rest)) :
    directiveOrBlock inner (blanks ++ (joined name (more.map Location.chars) ++
        ' ' :: '\x7b' :: (content ++ (after ++ '\x7d' :: rest)))) =
      some ([.list [.list (words name (more.map Location.chars)), .list tokens]], rest) := by
  have undirected : grouped assignment (blanks ++ (joined name (more.map Location.chars) ++
      ' ' :: '\x7b' :: (content ++ (after ++ '\x7d' :: rest)))) = none :=
    group_none Tree.list (assignment_heading name more all)
  have opened : leftBracket (' ' :: '\x7b' :: (content ++ (after ++ '\x7d' :: rest))) =
      some ([], content ++ (after ++ '\x7d' :: rest)) :=
    suppress_eq (literal_eq blanks_space solid_open)
  have closed : rightBracket (after ++ '\x7d' :: rest) = some ([], rest) :=
    suppress_eq (literal_eq indented solid_close)
  unfold directiveOrBlock
  rw [choice_second undirected]
  exact group_eq Tree.list
    (seq_eq (heading_eq name more all) (seq_eq opened (seq_eq (group_eq Tree.list taken) closed)))

theorem loads (entry : Entry) : entry.Loads := by
  induction entry using Entry.nested with
  | directive name more =>
      intro indent depth enough blanks rest all
      rw [core_directive, Entry.tree, List.append_assoc]
      exact choice_eq (group_eq Tree.list (assignment_eq name more all))
  | block name more body each =>
      intro indent depth enough blanks rest all
      cases depth with
      | zero =>
          rw [core_block] at enough
          simp only [List.length_append, List.length_cons] at enough
          omega
      | succ depth =>
          have inside : ∀ entry ∈ body, (entry.core (indent + 4)).length ≤ depth := by
            intro entry member
            have shorter := core_length_lt indent name more member
            omega
          have indented : Blanks ('\n' :: spaces indent) :=
            Blanks.append blanks_newline (blanks_spaces indent)
          have taken : subblock (depth + 1)
              ((body.flatMap fun entry => '\n' :: entry.text (indent + 4)) ++
                (('\n' :: spaces indent) ++ '\x7d' :: rest)) =
              some (body.map Entry.tree, ('\n' :: spaces indent) ++ '\x7d' :: rest) :=
            subblock_eq each inside indented
          have whole := block_eq name more all indented taken
          rw [core_block, Entry.tree]
          simp only [List.append_assoc, List.cons_append, List.nil_append] at whole ⊢
          exact whole

end Entries

/-! ### Files -/

theorem expandtabs_eq {chars : List Char} (column : Nat) (noTab : '\t' ∉ chars) :
    expandtabs column chars = chars := by
  induction chars generalizing column with
  | nil => rfl
  | cons char rest ih =>
      rw [List.mem_cons, not_or] at noTab
      rw [expandtabs, ih _ noTab.2]
      intro equal
      exact noTab.1 equal.symm

theorem noTab_joined (name : Key) {more : Option (List Char)}
    (noTab : ∀ chars ∈ more, '\t' ∉ chars) : '\t' ∉ joined name more := by
  have named : '\t' ∉ name.chars := by
    intro member
    cases name.allowed '\t' member
  unfold joined
  rw [List.mem_append, not_or]
  refine ⟨named, ?_⟩
  cases more with
  | none => exact List.not_mem_nil
  | some chars =>
      change '\t' ∉ ' ' :: chars
      rw [List.mem_cons, not_or]
      exact ⟨by decide, noTab chars rfl⟩

theorem noTab_spaces (count : Nat) : '\t' ∉ spaces count := by
  intro member
  cases List.eq_of_mem_replicate member

theorem noTab_lead (indent : Nat) (entry : Entry) : '\t' ∉ entry.lead indent := by
  cases entry with
  | directive name more => exact noTab_spaces indent
  | block name more body =>
      unfold Entry.lead
      rw [List.mem_append, not_or]
      refine ⟨?_, noTab_spaces indent⟩
      split <;> decide

theorem noTab_core (entry : Entry) : ∀ indent, '\t' ∉ entry.core indent := by
  induction entry using Entry.nested with
  | directive name more =>
      intro indent
      have header : '\t' ∉ joined name (more.map Value.chars) := by
        apply noTab_joined
        intro chars found
        obtain ⟨content, _here, rfl⟩ := Option.map_eq_some_iff.mp found
        exact fun member => content.noTab '\t' member rfl
      rw [core_directive, List.mem_append, not_or]
      exact ⟨header, by decide⟩
  | block name more body each =>
      intro indent
      have header : '\t' ∉ joined name (more.map Location.chars) := by
        apply noTab_joined
        intro chars found
        obtain ⟨place, _here, rfl⟩ := Option.map_eq_some_iff.mp found
        intro member
        cases place.allowed '\t' member
      have inside : '\t' ∉ body.flatMap fun entry => '\n' :: entry.text (indent + 4) := by
        rw [List.mem_flatMap]
        rintro ⟨entry, member, found⟩
        rw [Entry.text, List.mem_cons, List.mem_append] at found
        rcases found with newline | led | within
        · cases newline
        · exact noTab_lead (indent + 4) entry led
        · exact each entry member (indent + 4) within
      rw [core_block]
      simp only [List.mem_append, List.mem_cons, List.not_mem_nil, or_false, not_or]
      exact ⟨⟨⟨⟨header, by decide, by decide⟩, inside⟩, by decide, noTab_spaces indent⟩,
        by decide⟩

theorem noTab_fileText (entries : List Entry) : '\t' ∉ fileText entries := by
  unfold fileText
  rw [List.mem_flatMap]
  rintro ⟨entry, _member, found⟩
  rw [Entry.text, List.mem_append, List.mem_append, List.mem_singleton] at found
  rcases found with (led | within) | newline
  · exact noTab_lead 0 entry led
  · exact noTab_core entry 0 within
  · cases newline

private theorem core_length_le {entries : List Entry} {entry : Entry} (member : entry ∈ entries) :
    (entry.core 0).length ≤ (fileText entries).length := by
  obtain ⟨before, after, rfl⟩ := List.append_of_mem member
  unfold fileText
  rw [List.flatMap_append, List.flatMap_cons]
  simp only [Entry.text, List.length_append]
  omega

theorem load_fileText (entry : Entry) (entries : List Entry) :
    load (String.ofList (fileText (entry :: entries))) =
      some ((entry :: entries).map Entry.tree) := by
  have read : ∀ other ∈ entry :: entries, ∀ blanks rest, Blanks blanks →
      directiveOrBlock (subblock (fileText (entry :: entries)).length)
        (blanks ++ (other.text 0 ++ rest)) = some ([other.tree], rest) := by
    intro other member blanks rest all
    have taken := loads other 0 _ (core_length_le member) (blanks ++ other.lead 0) rest
      (Blanks.append all (blanks_lead 0 other))
    rw [Entry.text, List.append_assoc, ← List.append_assoc blanks]
    exact taken
  have stops : directiveOrBlock (subblock (fileText (entry :: entries)).length) ['\n'] = none :=
    directiveOrBlock_none _ (word_blanks blanks_newline)
  obtain ⟨_here, later⟩ := List.forall_mem_cons.mp read
  have others := many_eq (fun other => '\n' :: other.text 0) (fun other => [other.tree]) entries
    (fun other member rest => later other member ['\n'] rest blanks_newline)
    (fun other _member => List.cons_ne_nil '\n' (other.text 0)) stops
  rw [← List.map_eq_flatMap] at others
  have whole := seq_eq (read entry List.mem_cons_self [] _ not_blank_nil) others
  have text : fileText (entry :: entries) =
      entry.text 0 ++ ((entries.flatMap fun other => '\n' :: other.text 0) ++ ['\n']) := by
    rw [← newline_flatMap]
    unfold fileText
    rw [List.flatMap_cons, List.append_assoc]
    rfl
  have scripted : script (fileText (entry :: entries)).length (fileText (entry :: entries)) =
      some ((entry :: entries).map Entry.tree, ['\n']) :=
    (congrArg (script (fileText (entry :: entries)).length) text).trans whole
  unfold load
  dsimp only
  rw [String.toList_ofList, expandtabs_eq 0 (noTab_fileText _), scripted, Option.map_some]

/-! ### Trees -/

def keyText (chars : List Char) : Bool := !chars.isEmpty && chars.all keyChar

def solidStart : List Char → Bool
  | [] => false
  | char :: _ => !blank char && char != '#'

def valueChar (char : Char) : Bool := !(['\x7b', '\x7d', ';'].contains char) && char != '\t'

def valueText (chars : List Char) : Bool := solidStart chars && chars.all valueChar

def locationText (chars : List Char) : Bool :=
  solidStart chars && !(chars.head?.any fun char => ['=', '~', '^'].contains char) &&
    chars.all fun char => !notInLocation.contains char

def headingText : List Tree → Bool
  | [.text key] => keyText key
  | [.text key, .text location] => keyText key && locationText location
  | _ => false

mutual

def writable : Tree → Bool
  | .list [.text key] => keyText key
  | .list [.text key, .text value] => keyText key && valueText value
  | .list [.list words, .list body] => headingText words && writables body
  | _ => false

def writables : List Tree → Bool
  | [] => true
  | tree :: rest => writable tree && writables rest

end

theorem exists_key {chars : List Char} (plain : keyText chars = true) :
    ∃ key : Key, key.chars = chars := by
  cases chars with
  | nil => cases plain
  | cons first others =>
      rw [keyText, Bool.and_eq_true, List.all_eq_true] at plain
      exact ⟨⟨first, others, plain.2⟩, rfl⟩

private theorem solid_of_start {char : Char} {others : List Char}
    (starts : solidStart (char :: others) = true) : Solid char := by
  rw [solidStart, Bool.and_eq_true, Bool.not_eq_true', bne_iff_ne] at starts
  exact starts

theorem exists_value {chars : List Char} (plain : valueText chars = true) :
    ∃ value : Value, value.chars = chars := by
  cases chars with
  | nil => cases plain
  | cons first others =>
      rw [valueText, Bool.and_eq_true, List.all_eq_true] at plain
      obtain ⟨starts, allowed⟩ := plain
      simp only [valueChar, Bool.and_eq_true, Bool.not_eq_true', bne_iff_ne] at allowed
      exact ⟨⟨first, others, solid_of_start starts, fun char member => (allowed char member).1,
        fun char member => (allowed char member).2⟩, rfl⟩

theorem exists_location {chars : List Char} (plain : locationText chars = true) :
    ∃ location : Location, location.chars = chars := by
  cases chars with
  | nil => cases plain
  | cons first others =>
      rw [locationText, Bool.and_eq_true, Bool.and_eq_true, List.all_eq_true] at plain
      obtain ⟨⟨starts, unmodified⟩, allowed⟩ := plain
      simp only [Bool.not_eq_true'] at allowed
      have differs : first ≠ '=' ∧ first ≠ '~' ∧ first ≠ '^' := by
        simpa using unmodified
      exact ⟨⟨first, others, solid_of_start starts, differs, allowed⟩, rfl⟩

theorem exists_heading : (trees : List Tree) → headingText trees = true →
    ∃ (key : Key) (location : Option Location), words key (location.map Location.chars) = trees
  | [.text name], plain => by
      rw [headingText] at plain
      obtain ⟨key, rfl⟩ := exists_key plain
      exact ⟨key, none, rfl⟩
  | [.text name, .text place], plain => by
      rw [headingText, Bool.and_eq_true] at plain
      obtain ⟨key, rfl⟩ := exists_key plain.1
      obtain ⟨location, rfl⟩ := exists_location plain.2
      exact ⟨key, some location, rfl⟩

mutual

theorem exists_entry : (tree : Tree) → writable tree = true → ∃ entry : Entry, entry.tree = tree
  | .list [.text name], plain => by
      rw [writable] at plain
      obtain ⟨key, rfl⟩ := exists_key plain
      exact ⟨.directive key none, by rw [Entry.tree]; rfl⟩
  | .list [.text name, .text content], plain => by
      rw [writable, Bool.and_eq_true] at plain
      obtain ⟨key, rfl⟩ := exists_key plain.1
      obtain ⟨value, rfl⟩ := exists_value plain.2
      exact ⟨.directive key (some value), by rw [Entry.tree]; rfl⟩
  | .list [.list header, .list body], plain => by
      rw [writable, Bool.and_eq_true] at plain
      obtain ⟨key, location, rfl⟩ := exists_heading header plain.1
      obtain ⟨entries, rfl⟩ := exists_entries body plain.2
      exact ⟨.block key location entries, by rw [Entry.tree]⟩

theorem exists_entries : (trees : List Tree) → writables trees = true →
    ∃ entries : List Entry, entries.map Entry.tree = trees
  | [], _plain => ⟨[], rfl⟩
  | tree :: rest, plain => by
      rw [writables, Bool.and_eq_true] at plain
      obtain ⟨entry, rfl⟩ := exists_entry tree plain.1
      obtain ⟨entries, rfl⟩ := exists_entries rest plain.2
      exact ⟨entry :: entries, rfl⟩

end

/-- What `for key, values in blocks` can unpack. -/
def unpacks : Tree → Bool
  | .list [_, _] => true
  | _ => false

theorem valued_of_unpacks {entry : Entry} (pair : unpacks entry.tree = true) : entry.Valued := by
  cases entry with
  | directive key value =>
      cases value with
      | none =>
          rw [Entry.tree] at pair
          cases pair
      | some value => exact rfl
  | block key location body => trivial

/-- What is written from writable trees can be read, and holds those trees. -/
theorem load_dump {trees : List Tree} (nonempty : trees ≠ []) (plain : writables trees = true)
    (pairs : ∀ tree ∈ trees, unpacks tree = true) :
    ∃ file, dump trees = some file ∧ load file = some trees := by
  obtain ⟨entries, rfl⟩ := exists_entries trees plain
  have valued : ∀ entry ∈ entries, entry.Valued :=
    fun entry member => valued_of_unpacks (pairs entry.tree (List.mem_map_of_mem member))
  refine ⟨String.ofList (fileText entries), dump_eq valued, ?_⟩
  cases entries with
  | nil => exact absurd rfl nonempty
  | cons entry others => exact load_fileText entry others

end AutoBurst.Conf
