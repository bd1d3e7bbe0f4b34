/-
The request counter on its way from nginx to the controller: the page of
nginx/src/http/modules/ngx_http_stub_status_module.c, the
`awk 'NR==3 {print $3}'` of `getNumberOfReqs` and `int(result.strip())`.
-/

import AutoBurst.Controller.Literals
import AutoBurst.Controller.LoadBalancer
import AutoBurst.Nginx.Address
import Mathlib.Data.List.Basic

namespace AutoBurst.Controller

open Nginx

/-! ### The page -/

/-- The counters `ngx_stat_*`. -/
structure StubStatus where
  active : Nat
  accepted : Nat
  handled : Nat
  requests : Nat
  reading : Nat
  writing : Nat
  waiting : Nat

/-- `%uA`: sixty-four bits without a sign. -/
def sprintfAtomic (value : Nat) : List Char := sprintfNum (value % 2 ^ 64)

def activeText : List Char := "Active connections: ".toList

def readingText : List Char := "Reading: ".toList

def writingText : List Char := " Writing: ".toList

def waitingText : List Char := " Waiting: ".toList

def activeLine (stat : StubStatus) : List Char :=
  activeText ++ sprintfAtomic stat.active ++ [' ']

def headLine : List Char := "server accepts handled requests".toList

def countLine (stat : StubStatus) : List Char :=
  ' ' :: (sprintfAtomic stat.accepted ++ ' ' :: (sprintfAtomic stat.handled ++
    ' ' :: (sprintfAtomic stat.requests ++ [' '])))

def stateLine (stat : StubStatus) : List Char :=
  readingText ++ sprintfAtomic stat.reading ++ writingText ++ sprintfAtomic stat.writing ++
    waitingText ++ sprintfAtomic stat.waiting ++ [' ']

def stubStatus (stat : StubStatus) : List Char :=
  activeLine stat ++ '\n' :: (headLine ++ '\n' :: (countLine stat ++ '\n' ::
    (stateLine stat ++ ['\n'])))

/-- NGX_ATOMIC_T_LEN -/
def atomicLen : Nat := 20

/-- The size of the buffer; `sizeof` counts the zero at the end of a literal. -/
def stubStatusSize : Nat :=
  ("Active connections:  \n".length + 1) + atomicLen +
    (("server accepts handled requests\n".length + 1) - 1) + 6 + 3 * atomicLen +
    ("Reading:  Writing:  Waiting:  \n".length + 1) + 3 * atomicLen

/-! ### The command -/

/-- Lines, without an empty one after the last newline. -/
def awkRecords (text : List Char) : List (List Char) :=
  let parts := text.splitOn '\n'
  if parts.getLast? = some [] then parts.dropLast else parts

def isBlank (ch : Char) : Bool := ch = ' ' || ch = '\t' || ch = '\n'

def awkFields (record : List Char) : List (List Char) :=
  (record.splitOnP isBlank).filter fun field => !field.isEmpty

/-- `NR==nr {print $field}`: a field that is not there is empty. -/
def awkPrint (nr field : Nat) (text : List Char) : List Char :=
  match (awkRecords text)[nr - 1]? with
  | none => []
  | some record => (awkFields record)[field - 1]?.getD [] ++ ['\n']

/-- `int(result.strip())` -/
def readReqs (page : List Char) : Option Int := parseInt (String.ofList (strip (awkPrint 3 3 page)))

/-! ### The numbers of the page -/

section Digits

theorem sprintfAtomic_eq (value : Nat) :
    sprintfAtomic value = Nat.toDigits 10 (value % 2 ^ 64) :=
  sprintfNum_eq (Nat.mod_lt _ (by decide))

private theorem sprintfAtomic_digit (value : Nat) :
    ∀ ch ∈ sprintfAtomic value, ch.isDigit = true := by
  rw [sprintfAtomic_eq]
  exact Decimal.isDigit_of_toDigits _

private theorem digit_ne {ch other : Char} (digit : ch.isDigit = true)
    (outside : other.isDigit = false) : ch ≠ other := by
  intro same
  rw [same, outside] at digit
  cases digit

private theorem digit_blank {ch : Char} (digit : ch.isDigit = true) : isBlank ch = false := by
  unfold isBlank
  rw [decide_eq_false (digit_ne digit (by decide)), decide_eq_false (digit_ne digit (by decide)),
    decide_eq_false (digit_ne digit (by decide))]
  rfl

theorem sprintfAtomic_ne_nil (value : Nat) : sprintfAtomic value ≠ [] := by
  rw [sprintfAtomic_eq]
  exact Nat.toDigits_ne_nil

theorem length_sprintfAtomic (value : Nat) : (sprintfAtomic value).length ≤ atomicLen :=
  length_sprintfNum _

end Digits

/-! ### Lines and fields -/

private theorem newline_sprintfAtomic (value : Nat) : '\n' ∉ sprintfAtomic value := by
  intro member
  have digit := sprintfAtomic_digit value _ member
  cases digit

theorem awkRecords_stubStatus (stat : StubStatus) :
    awkRecords (stubStatus stat) = [activeLine stat, headLine, countLine stat, stateLine stat] := by
  have active : '\n' ∉ activeLine stat := by
    simp only [activeLine, List.mem_append, not_or]
    refine ⟨⟨by decide +kernel, newline_sprintfAtomic _⟩, by decide⟩
  have head : '\n' ∉ headLine := by decide +kernel
  have count : '\n' ∉ countLine stat := by
    simp only [countLine, List.mem_cons, List.mem_append, not_or]
    exact ⟨by decide, newline_sprintfAtomic _, by decide, newline_sprintfAtomic _, by decide,
      newline_sprintfAtomic _, by decide, List.not_mem_nil⟩
  have states : '\n' ∉ stateLine stat := by
    simp only [stateLine, List.mem_append, not_or]
    exact ⟨⟨⟨⟨⟨⟨by decide +kernel, newline_sprintfAtomic _⟩, by decide +kernel⟩,
      newline_sprintfAtomic _⟩, by decide +kernel⟩, newline_sprintfAtomic _⟩, by decide⟩
  have parts : (stubStatus stat).splitOn '\n' =
      [activeLine stat, headLine, countLine stat, stateLine stat, []] := by
    unfold stubStatus
    rw [List.splitOn_append_cons_self_of_not_mem active,
      List.splitOn_append_cons_self_of_not_mem head,
      List.splitOn_append_cons_self_of_not_mem count,
      List.splitOn_append_cons_self_of_not_mem states, List.splitOn_nil]
  unfold awkRecords
  rw [parts]
  rfl

theorem awkFields_countLine (stat : StubStatus) :
    awkFields (countLine stat) = [sprintfAtomic stat.accepted, sprintfAtomic stat.handled,
      sprintfAtomic stat.requests] := by
  have plain : ∀ value, ∀ ch ∈ sprintfAtomic value, isBlank ch = false :=
    fun value ch member => digit_blank (sprintfAtomic_digit value ch member)
  have present : ∀ value, (sprintfAtomic value).isEmpty = false :=
    fun value => List.isEmpty_eq_false_iff.mpr (sprintfAtomic_ne_nil value)
  have parts : (countLine stat).splitOnP isBlank = [[], sprintfAtomic stat.accepted,
      sprintfAtomic stat.handled, sprintfAtomic stat.requests, []] := by
    unfold countLine
    rw [← List.nil_append (' ' :: _),
      List.splitOnP_append_cons_of_forall_mem (fun _ch member => by cases member) _ rfl,
      List.splitOnP_append_cons_of_forall_mem (plain _) _ rfl,
      List.splitOnP_append_cons_of_forall_mem (plain _) _ rfl,
      List.splitOnP_append_cons_of_forall_mem (plain _) _ rfl, List.splitOnP_nil]
  unfold awkFields
  rw [parts]
  simp only [List.filter_cons, List.filter_nil, List.isEmpty_nil, present, Bool.not_true,
    Bool.not_false, Bool.false_eq_true, if_true, if_false]

theorem length_stubStatus (stat : StubStatus) : (stubStatus stat).length ≤ stubStatusSize := by
  have size : stubStatusSize = 233 := by decide +kernel
  have texts : activeText.length = 20 ∧ headLine.length = 31 ∧ readingText.length = 9 ∧
      writingText.length = 10 ∧ waitingText.length = 10 := by decide +kernel
  have digits : ∀ value, (sprintfAtomic value).length ≤ 20 := length_sprintfAtomic
  have active := digits stat.active
  have accepted := digits stat.accepted
  have handled := digits stat.handled
  have requests := digits stat.requests
  have reading := digits stat.reading
  have writing := digits stat.writing
  have waiting := digits stat.waiting
  rw [size]
  simp only [stubStatus, activeLine, countLine, stateLine, List.length_append, List.length_cons,
    List.length_nil]
  omega

theorem readReqs_stubStatus (stat : StubStatus) :
    readReqs (stubStatus stat) = some ((stat.requests % 2 ^ 64 : Nat) : Int) := by
  have digits := sprintfAtomic_digit stat.requests
  have nonempty := sprintfAtomic_ne_nil stat.requests
  have printed : awkPrint 3 3 (stubStatus stat) = sprintfAtomic stat.requests ++ ['\n'] := by
    unfold awkPrint
    rw [awkRecords_stubStatus]
    change (awkFields (countLine stat))[2]?.getD [] ++ ['\n'] = _
    rw [awkFields_countLine]
    rfl
  have newline : ∀ ch ∈ ['\n'], isSpace ch = true := by
    intro ch member
    rw [List.mem_singleton.mp member]
    rfl
  unfold readReqs
  rw [printed, strip_digits nonempty digits _ newline, parseInt_digits nonempty digits,
    sprintfAtomic_eq, Nat.ofDigitChars_ten_toDigits]

/-- Whatever the counters are, the page does not outgrow its buffer, and the
controller reads the number of requests from it. -/
theorem statusPage_read (lb : LoadBalancer) (stat : StubStatus) :
    (stubStatus stat).length ≤ stubStatusSize ∧
      getNumberOfReqs lb (readReqs (stubStatus stat)) = (stat.requests % 2 ^ 64 : Nat) := by
  refine ⟨length_stubStatus stat, ?_⟩
  rw [readReqs_stubStatus]
  rfl

end AutoBurst.Controller
