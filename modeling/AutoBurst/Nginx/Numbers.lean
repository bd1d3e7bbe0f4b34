/-
Numbers and times in a configuration: `ngx_atoi` of nginx/src/core/ngx_string.c
and `ngx_parse_time` of nginx/src/core/ngx_parse.c.

Both test before they compute, so that no `ngx_int_t` overflows. `none` is
NGX_ERROR.
-/

import AutoBurst.Lib.Decimal
import Mathlib.Algebra.Order.Group.Nat
import Mathlib.Tactic.SplitIfs

namespace AutoBurst.Nginx

/-- `NGX_MAX_INT_T_VALUE` -/
def maxInt : Nat := 9223372036854775807

def digitOf (ch : Char) : Nat := ch.toNat - '0'.toNat

/-- `value >= cutoff && (value > cutoff || *line - '0' > cutlim)` -/
def cutOff (value : Nat) (ch : Char) : Bool :=
  decide (maxInt / 10 ≤ value) &&
    (decide (maxInt / 10 < value) || decide (maxInt % 10 < digitOf ch))

def atoiFrom (value : Nat) : List Char → Option Nat
  | [] => some value
  | ch :: rest =>
      if ch.isDigit = false then none
      else if cutOff value ch then none
      else atoiFrom (value * 10 + digitOf ch) rest

def atoi (line : List Char) : Option Nat := if line.isEmpty then none else atoiFrom 0 line

theorem digitOf_le {ch : Char} (digit : ch.isDigit = true) : digitOf ch ≤ 9 := by
  have bounds : 48 ≤ ch.toNat ∧ ch.toNat ≤ 57 := by
    simpa [Char.isDigit, UInt32.le_iff_toNat_le] using digit
  change ch.toNat - 48 ≤ 9
  omega

/-- The test refuses exactly what would leave the range. -/
theorem cutOff_iff {value : Nat} {ch : Char} (digit : ch.isDigit = true) :
    cutOff value ch = true ↔ maxInt < value * 10 + digitOf ch := by
  have small := digitOf_le digit
  unfold cutOff maxInt
  rw [Bool.and_eq_true, Bool.or_eq_true, decide_eq_true_eq, decide_eq_true_eq, decide_eq_true_eq]
  omega

theorem le_ofDigitChars (value : Nat) (line : List Char) :
    value ≤ Nat.ofDigitChars 10 line value := by
  induction line generalizing value with
  | nil => exact Nat.le_of_eq Nat.ofDigitChars_nil.symm
  | cons ch rest ih =>
      rw [Nat.ofDigitChars_cons]
      exact Nat.le_trans (by omega) (ih _)

private theorem atoiFrom_eq {value : Nat} (small : value ≤ maxInt) {line : List Char}
    (digits : ∀ ch ∈ line, ch.isDigit = true) :
    atoiFrom value line =
      if Nat.ofDigitChars 10 line value ≤ maxInt then some (Nat.ofDigitChars 10 line value)
      else none := by
  induction line generalizing value with
  | nil => rw [atoiFrom, Nat.ofDigitChars_nil, if_pos small]
  | cons ch rest ih =>
      obtain ⟨digit, later⟩ := List.forall_mem_cons.mp digits
      have next : 10 * value + (ch.toNat - '0'.toNat) = value * 10 + digitOf ch := by
        rw [Nat.mul_comm]
        rfl
      rw [atoiFrom, if_neg (Bool.not_eq_false _ ▸ digit),
        Nat.ofDigitChars_cons, next]
      by_cases refused : cutOff value ch = true
      · have large := (cutOff_iff digit).mp refused
        have grown := le_ofDigitChars (value * 10 + digitOf ch) rest
        rw [if_pos refused, if_neg (by omega)]
      · have fits : value * 10 + digitOf ch ≤ maxInt := by
          rw [cutOff_iff digit] at refused
          omega
        rw [if_neg refused, ih fits later]

/-- A non-empty run of digits is read as its value if that is in range, and
refused if it is not. -/
theorem atoi_digits {line : List Char} (nonempty : line ≠ [])
    (digits : ∀ ch ∈ line, ch.isDigit = true) :
    atoi line =
      if Nat.ofDigitChars 10 line 0 ≤ maxInt then some (Nat.ofDigitChars 10 line 0) else none := by
  unfold atoi
  rw [if_neg (by rw [List.isEmpty_iff]; exact nonempty), atoiFrom_eq (Nat.zero_le _) digits]

theorem atoi_toDigits (n : Nat) :
    atoi (Nat.toDigits 10 n) = if n ≤ maxInt then some n else none := by
  rw [atoi_digits Nat.toDigits_ne_nil (Decimal.isDigit_of_toDigits n),
    Nat.ofDigitChars_ten_toDigits]

/-- A sign is no digit. -/
theorem atoi_minus (rest : List Char) : atoi ('-' :: rest) = none := rfl

/-! ### Times -/

inductive TimeStep
  | start
  | year
  | month
  | week
  | day
  | hour
  | min
  | sec
  | msec
  | last
deriving DecidableEq, Repr

def TimeStep.rank : TimeStep → Nat
  | .start => 0
  | .year => 1
  | .month => 2
  | .week => 3
  | .day => 4
  | .hour => 5
  | .min => 6
  | .sec => 7
  | .msec => 8
  | .last => 9

structure TimeScan where
  valid : Bool
  value : Nat
  total : Nat
  step : TimeStep
deriving DecidableEq, Repr

/-- The unit a letter stands for and its scale, if it may come after the units
before it. A year is tested with `step > st_start`, the others with `>=`. -/
def timeUnit (isSec : Bool) (step : TimeStep) (ch : Char) (next : Option Char) :
    Option (TimeStep × Nat) :=
  let unlessAfter (unit : TimeStep) (scale : Nat) : Option (TimeStep × Nat) :=
    if unit.rank ≤ step.rank then none else some (unit, scale)
  match ch with
  | 'y' => if TimeStep.start.rank < step.rank then none else some (.year, 60 * 60 * 24 * 365)
  | 'M' => unlessAfter .month (60 * 60 * 24 * 30)
  | 'w' => unlessAfter .week (60 * 60 * 24 * 7)
  | 'd' => unlessAfter .day (60 * 60 * 24)
  | 'h' => unlessAfter .hour (60 * 60)
  | 'm' =>
      if next = some 's' then if isSec then none else unlessAfter .msec 1
      else unlessAfter .min 60
  | 's' => unlessAfter .sec 1
  | ' ' => if TimeStep.sec.rank ≤ step.rank then none else some (.last, 1)
  | _ => none

/-- Add the value read so far in its unit. With `checked` unset the tests are
left out, so that the sum is the one of the text. -/
def TimeScan.add (checked isSec : Bool) (scan : TimeScan) (step : TimeStep) (scale : Nat) :
    Option TimeScan :=
  let thousandfold := step != .msec && !isSec
  let most := if thousandfold then maxInt / scale / 1000 else maxInt / scale
  let scaled := scan.value * (if thousandfold then scale * 1000 else scale)
  if checked && decide (most < scan.value) then none
  else if checked && decide (maxInt - scaled < scan.total) then none
  else some { scan with value := 0, total := scan.total + scaled, step := step }

def TimeScan.finish (checked isSec : Bool) (scan : TimeScan) : Option Nat :=
  let value := if isSec then scan.value else scan.value * 1000
  if scan.valid = false then none
  else if checked && (!isSec && decide (maxInt / 1000 < scan.value)) then none
  else if checked && decide (maxInt - value < scan.total) then none
  else some (scan.total + value)

/-- Where the pointer stands: at the next character, before the `s` of a
millisecond that was already looked at, or in the blanks after a unit. -/
inductive TimeMode
  | reading
  | letter
  | blanks
deriving DecidableEq, Repr

def parseTimeFrom (checked isSec : Bool) (scan : TimeScan) (mode : TimeMode) :
    List Char → Option Nat
  | [] => scan.finish checked isSec
  | ch :: rest =>
      if mode = .letter then parseTimeFrom checked isSec scan .blanks rest
      else if mode = .blanks ∧ ch = ' ' then parseTimeFrom checked isSec scan .blanks rest
      else if ch.isDigit then
        if checked && cutOff scan.value ch then none
        else parseTimeFrom checked isSec
          { scan with value := scan.value * 10 + digitOf ch, valid := true } .reading rest
      else
        match timeUnit isSec scan.step ch rest.head? with
        | none => none
        | some (step, scale) =>
            match scan.add checked isSec step scale with
            | none => none
            | some added =>
                parseTimeFrom checked isSec added
                  (if step = .msec then .letter else .blanks) rest

def timeStart (isSec : Bool) : TimeScan :=
  { valid := false, value := 0, total := 0, step := if isSec then .start else .month }

def parseTime (line : List Char) (isSec : Bool) : Option Nat :=
  parseTimeFrom true isSec (timeStart isSec) .reading line

def timeOf (line : List Char) (isSec : Bool) : Option Nat :=
  parseTimeFrom false isSec (timeStart isSec) .reading line

/-! ### The tests refuse exactly the times out of range -/

private theorem timeUnit_pos {isSec : Bool} {step unit : TimeStep} {ch : Char}
    {next : Option Char} {scale : Nat}
    (found : timeUnit isSec step ch next = some (unit, scale)) : 1 ≤ scale := by
  unfold timeUnit at found
  dsimp only at found
  split at found <;> (try split_ifs at found) <;> cases found <;> decide

/-- What `add` adds is at least the value, and the tests stand for the bound. -/
private theorem TimeScan.add_eq (isSec : Bool) (scan : TimeScan) (step : TimeStep) {scale : Nat}
    (positive : 1 ≤ scale) :
    ∃ scaled, scan.value ≤ scaled ∧
      scan.add false isSec step scale =
        some { scan with value := 0, total := scan.total + scaled, step := step } ∧
      scan.add true isSec step scale =
        if maxInt < scan.total + scaled then none
        else some { scan with value := 0, total := scan.total + scaled, step := step } := by
  unfold TimeScan.add
  dsimp only
  generalize factorEq : (if (step != .msec && !isSec) = true then scale * 1000 else scale) = factor
  have mostEq : (if (step != .msec && !isSec) = true then maxInt / scale / 1000
      else maxInt / scale) = maxInt / factor := by
    rw [← factorEq]
    split
    · exact Nat.div_div_eq_div_mul _ _ _
    · rfl
  have factorPos : 0 < factor := by
    rw [← factorEq]
    split <;> omega
  have larger : scan.value ≤ scan.value * factor := Nat.le_mul_of_pos_right _ factorPos
  refine ⟨scan.value * factor, larger, rfl, ?_⟩
  rw [mostEq]
  have beyond : maxInt / factor < scan.value ↔ maxInt < scan.value * factor :=
    Nat.div_lt_iff_lt_mul factorPos
  simp only [Bool.true_and, decide_eq_true_eq, beyond]
  split_ifs <;> first | rfl | omega

/-- The bound as a filter on what was computed without it. -/
private theorem filter_eq (time : Nat) :
    (some time).filter (fun time => decide (time ≤ maxInt)) =
      if maxInt < time then none else some time := by
  rw [Option.filter_some]
  by_cases large : maxInt < time
  · rw [if_pos large, if_neg (fun fits => Nat.not_le.mpr large (of_decide_eq_true fits))]
  · rw [if_neg large, if_pos (decide_eq_true (Nat.not_lt.mp large))]

private theorem finish_eq (isSec : Bool) {scan : TimeScan} (fits : scan.value ≤ maxInt) :
    scan.finish true isSec =
      (scan.finish false isSec).filter (fun time => decide (time ≤ maxInt)) := by
  unfold TimeScan.finish
  cases valid : scan.valid with
  | false => rfl
  | true =>
      have beyond : maxInt / 1000 < scan.value ↔ maxInt < scan.value * 1000 :=
        Nat.div_lt_iff_lt_mul (by decide)
      cases isSec with
      | true =>
          have outside : maxInt - scan.value < scan.total ↔ maxInt < scan.total + scan.value := by
            omega
          simp [filter_eq, outside]
      | false =>
          by_cases large : maxInt < scan.value * 1000
          · simp [filter_eq, beyond, large, Nat.lt_add_left scan.total large]
          · have outside : maxInt - scan.value * 1000 < scan.total ↔
                maxInt < scan.total + scan.value * 1000 := by
              omega
            simp [filter_eq, beyond, large, outside]

private theorem le_finish {isSec : Bool} {scan : TimeScan} {time : Nat}
    (finished : scan.finish false isSec = some time) : scan.total + scan.value ≤ time := by
  unfold TimeScan.finish at finished
  dsimp only at finished
  simp only [Bool.false_and, Bool.false_eq_true, if_false] at finished
  split at finished
  · cases finished
  · cases finished
    split <;> omega

/-- What was read so far is part of the time. -/
private theorem le_parseTimeFrom {isSec : Bool} {scan : TimeScan} {mode : TimeMode}
    {line : List Char} {time : Nat}
    (parsed : parseTimeFrom false isSec scan mode line = some time) :
    scan.total + scan.value ≤ time := by
  induction line generalizing scan mode with
  | nil => exact le_finish parsed
  | cons ch rest ih =>
      rw [parseTimeFrom] at parsed
      split at parsed
      · exact ih parsed
      split at parsed
      · exact ih parsed
      split at parsed
      · rw [Bool.false_and, if_neg Bool.false_ne_true] at parsed
        have grown := ih parsed
        dsimp only at grown
        omega
      · cases unit : timeUnit isSec scan.step ch rest.head? with
        | none =>
            rw [unit] at parsed
            cases parsed
        | some found =>
            obtain ⟨step, scale⟩ := found
            obtain ⟨scaled, larger, unchecked, _checked⟩ :=
              TimeScan.add_eq isSec scan step (timeUnit_pos unit)
            rw [unit] at parsed
            dsimp only at parsed
            rw [unchecked] at parsed
            have grown := ih parsed
            dsimp only at grown
            omega

private theorem parseTimeFrom_eq {isSec : Bool} {scan : TimeScan} (fits : scan.value ≤ maxInt)
    (mode : TimeMode) (line : List Char) :
    parseTimeFrom true isSec scan mode line =
      (parseTimeFrom false isSec scan mode line).filter (fun time => decide (time ≤ maxInt)) := by
  -- a refusal means that what was read so far, a part of the whole, is out of range
  have refuse : ∀ (part : Option Nat) (least : Nat), maxInt < least →
      (∀ time, part = some time → least ≤ time) →
      none = part.filter (fun time => decide (time ≤ maxInt)) := by
    intro part least large above
    cases part with
    | none => rfl
    | some time => rw [filter_eq, if_pos (Nat.lt_of_lt_of_le large (above time rfl))]
  induction line generalizing scan mode with
  | nil => exact finish_eq isSec fits
  | cons ch rest ih =>
      rw [parseTimeFrom, parseTimeFrom]
      split
      · exact ih fits .blanks
      split
      · exact ih fits .blanks
      split
      · rename_i digit
        rw [Bool.true_and, Bool.false_and, if_neg Bool.false_ne_true]
        split
        · rename_i cut
          refine refuse _ _ ((cutOff_iff digit).mp cut) ?_
          intro time parsed
          have grown := le_parseTimeFrom parsed
          dsimp only at grown
          omega
        · rename_i uncut
          rw [cutOff_iff digit] at uncut
          exact ih (Nat.not_lt.mp uncut) .reading
      · cases unit : timeUnit isSec scan.step ch rest.head? with
        | none => rfl
        | some found =>
            obtain ⟨step, scale⟩ := found
            obtain ⟨scaled, _larger, unchecked, checked⟩ :=
              TimeScan.add_eq isSec scan step (timeUnit_pos unit)
            dsimp only
            rw [unchecked, checked]
            by_cases large : maxInt < scan.total + scaled
            · rw [if_pos large]
              refine refuse _ _ large ?_
              intro time parsed
              have grown := le_parseTimeFrom parsed
              dsimp only at grown
              omega
            · rw [if_neg large]
              exact ih (Nat.zero_le _) _

/-- A time is refused exactly when its text is or when its value is out of
range; otherwise it is the value of the text, summed without overflow. -/
theorem parseTime_eq (line : List Char) (isSec : Bool) :
    parseTime line isSec = (timeOf line isSec).filter (fun time => decide (time ≤ maxInt)) :=
  parseTimeFrom_eq (Nat.zero_le _) .reading line

example : parseTime "1h 30m".toList true = some 5400 := by decide

end AutoBurst.Nginx
