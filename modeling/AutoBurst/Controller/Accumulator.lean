/-
The on-demand accumulator of `resource_estimator` over whole sequences of
calls: src/src/autoBurst.py.

A call turns the credit reading into an output in [-1, 1], adds it to what is
left over from the calls before, and takes out the whole units. Nothing is
lost or invented on the way, and less than one unit is ever left over.
-/

import AutoBurst.Controller.Policies
import AutoBurst.Lib.WhileLoop
import Mathlib.Tactic.Ring

namespace AutoBurst.Controller

open WhileLoop

/-! ### The part of a call before the table lookup -/

/-- What a call does to the estimator, and the raw `changeVal`. -/
def EstimatorState.accumulate (cfg : Config) (estimator : EstimatorState)
    (creditTotal : Rat) : EstimatorState × Int :=
  let difflist := appendTrimmed estimator.difflist (cfg.desiredCredit - creditTotal)
  let out := boundOutput (controlOutput cfg.P_m cfg.D_m difflist)
  let units := wholeUnits (estimator.increaseOnDflag + out)
  ({ creditTotal := estimator.creditTotal ++ [creditTotal]
     increaseOnDflag := units.1
     difflist := difflist }, units.2)

def targetOnD (changeVal : Int) (call : EstimatorCall) : Int :=
  let clamped := if changeVal > call.unusedOnD then (call.unusedOnD : Int) else changeVal
  if call.onD + clamped < 0 then 0 else call.onD + clamped

theorem resourceEstimator_eq (cfg : Config) (estimator : EstimatorState)
    (call : EstimatorCall) :
    resourceEstimator cfg estimator call =
      (findNumberOfBurstable cfg.throughputTable
        (targetOnD (estimator.accumulate cfg call.creditTotal).2 call)
        call.desiredThroughput 0).map fun b =>
          ((estimator.accumulate cfg call.creditTotal).1,
            targetOnD (estimator.accumulate cfg call.creditTotal).2 call,
            if b = -1 then (call.bur : Int) else b) :=
  rfl

/-! ### The two loops -/

def Rising (state : Rat × Int) : Prop := state.1 ≥ 1

def Falling (state : Rat × Int) : Prop := state.1 ≤ -1

def moveUp (state : Rat × Int) : Rat × Int := (state.1 - 1, state.2 + 1)

def moveDown (state : Rat × Int) : Rat × Int := (state.1 + 1, state.2 - 1)

/-- With fuel for every whole unit the counted loop is the source's loop. -/
theorem countUp_loops {fuel : Nat} {flag : Rat} (enough : flag < fuel + 1) (changeVal : Int) :
    Loops Rising moveUp (flag, changeVal) (countUp fuel flag changeVal) := by
  induction fuel generalizing flag changeVal with
  | zero =>
      refine .done ?_
      unfold Rising
      simp only [Nat.cast_zero, zero_add] at enough
      exact not_le.mpr enough
  | succ fuel ih =>
      unfold countUp
      by_cases goes : flag ≥ 1
      · rw [if_pos goes]
        refine .turn goes (ih ?_ (changeVal + 1))
        push_cast at enough
        linarith
      · rw [if_neg goes]
        exact .done goes

theorem countDown_loops {fuel : Nat} {flag : Rat} (enough : -flag < fuel + 1)
    (changeVal : Int) :
    Loops Falling moveDown (flag, changeVal) (countDown fuel flag changeVal) := by
  induction fuel generalizing flag changeVal with
  | zero =>
      refine .done ?_
      unfold Falling
      simp only [Nat.cast_zero, zero_add] at enough
      intro low
      linarith [show flag ≤ -1 from low]
  | succ fuel ih =>
      unfold countDown
      by_cases goes : flag ≤ -1
      · rw [if_pos goes]
        refine .turn goes (ih ?_ (changeVal - 1))
        push_cast at enough
        linarith
      · rw [if_neg goes]
        exact .done goes

private theorem lt_floor_fuel (value : Rat) : value < (value.floor.toNat : Nat) + 1 := by
  have above : value < (value.floor + 1 : Int) := Rat.lt_floor_add_one value
  have bound : (value.floor : Int) ≤ (value.floor.toNat : Nat) := Int.self_le_toNat _
  have cast : ((value.floor : Int) : Rat) ≤ ((value.floor.toNat : Nat) : Rat) := by
    exact_mod_cast bound
  push_cast at above
  linarith

/-- Both loops of the source end, and `wholeUnits` is where they end. -/
theorem wholeUnits_loops (flag : Rat) :
    ∃ middle, Loops Rising moveUp (flag, 0) middle ∧
      Loops Falling moveDown middle (wholeUnits flag) :=
  ⟨countUp flag.floor.toNat flag 0, countUp_loops (lt_floor_fuel flag) 0,
    countDown_loops (lt_floor_fuel _) _⟩

/-- The accumulator split into units and a rest. Units up leave a rest that is
not negative, units down one that is not positive. -/
structure Split (flag : Rat) (state : Rat × Int) : Prop where
  sum : state.1 + state.2 = flag
  up : 0 < state.2 → 0 ≤ state.1
  down : state.2 < 0 → state.1 ≤ 0

private theorem split_up {flag : Rat} {middle : Rat × Int}
    (loops : Loops Rising moveUp (flag, 0) middle) : Split flag middle ∧ middle.1 < 1 := by
  have counted : Split flag middle ∧ 0 ≤ middle.2 := loops.invariant
    (fun state => Split flag state ∧ 0 ≤ state.2)
    ⟨⟨by simp, by simp, by simp⟩, le_rfl⟩
    (by
      rintro ⟨left, units⟩ goes ⟨split, nonneg⟩
      have high : (1 : Rat) ≤ left := goes
      have sum : left + units = flag := split.sum
      have above : 0 ≤ units := nonneg
      refine ⟨⟨?_, ?_, ?_⟩, ?_⟩
      · change left - 1 + ((units + 1 : Int) : Rat) = flag
        push_cast
        linarith
      · intro _up
        change (0 : Rat) ≤ left - 1
        linarith
      · intro down
        have below : units + 1 < 0 := down
        omega
      · change 0 ≤ units + 1
        omega)
  exact ⟨counted.1, not_le.mp loops.exit⟩

private theorem split_down {flag : Rat} {middle last : Rat × Int}
    (split : Split flag middle) (below : middle.1 < 1)
    (loops : Loops Falling moveDown middle last) :
    Split flag last ∧ -1 < last.1 ∧ last.1 < 1 := by
  have counted : Split flag last ∧ last.1 < 1 := loops.invariant
    (fun state => Split flag state ∧ state.1 < 1) ⟨split, below⟩
    (by
      rintro ⟨left, units⟩ goes ⟨split, _small⟩
      have low : left ≤ -1 := goes
      have notUp : units ≤ 0 := by
        by_contra positive
        have rest : (0 : Rat) ≤ left := split.up (not_le.mp positive)
        linarith
      have sum : left + units = flag := split.sum
      refine ⟨⟨?_, ?_, ?_⟩, ?_⟩
      · change left + 1 + ((units - 1 : Int) : Rat) = flag
        push_cast
        linarith
      · intro positive
        have above : 0 < units - 1 := positive
        omega
      · intro _down
        change left + 1 ≤ (0 : Rat)
        linarith
      · change left + 1 < (1 : Rat)
        linarith)
  exact ⟨counted.1, not_le.mp loops.exit, counted.2⟩

theorem wholeUnits_split (flag : Rat) :
    Split flag (wholeUnits flag) ∧ -1 < (wholeUnits flag).1 ∧ (wholeUnits flag).1 < 1 := by
  obtain ⟨middle, up, down⟩ := wholeUnits_loops flag
  obtain ⟨split, below⟩ := split_up up
  exact split_down split below down

/-- From less than two units at most one is taken out. -/
theorem wholeUnits_one {flag : Rat} (low : -2 < flag) (high : flag < 2) :
    -1 ≤ (wholeUnits flag).2 ∧ (wholeUnits flag).2 ≤ 1 := by
  obtain ⟨split, _above, _below⟩ := wholeUnits_split flag
  have sum := split.sum
  constructor
  · by_contra fewer
    have units : (wholeUnits flag).2 ≤ -2 := by omega
    have rest := split.down (by omega)
    have cast : ((wholeUnits flag).2 : Rat) ≤ -2 := by exact_mod_cast units
    linarith
  · by_contra more
    have units : 2 ≤ (wholeUnits flag).2 := by omega
    have rest := split.up (by omega)
    have cast : (2 : Rat) ≤ ((wholeUnits flag).2 : Rat) := by exact_mod_cast units
    linarith

/-! ### The output of a call -/

theorem boundOutput_eq (out : Rat) : boundOutput out = max (-1) (min 1 out) := by
  unfold boundOutput
  split
  · rename_i high
    rw [min_eq_left (le_of_lt high), max_eq_right (by norm_num)]
  · rename_i notHigh
    have small : out ≤ 1 := not_lt.mp notHigh
    rw [min_eq_right small]
    split
    · rename_i low
      rw [max_eq_left (le_of_lt low)]
    · rename_i notLow
      rw [max_eq_right (not_lt.mp notLow)]

theorem boundOutput_bounds (out : Rat) : -1 ≤ boundOutput out ∧ boundOutput out ≤ 1 := by
  rw [boundOutput_eq]
  exact ⟨le_max_left _ _, max_le (by norm_num) (min_le_left _ _)⟩

def rawOutput (cfg : Config) (previous : Option Rat) (diff : Rat) : Rat :=
  match previous with
  | none => cfg.P_m * diff
  | some before => cfg.P_m * diff + cfg.D_m * (diff - before)

theorem controlOutput_rawOutput (cfg : Config) (entries : List Rat) (entry : Rat) :
    controlOutput cfg.P_m cfg.D_m (appendTrimmed entries entry) =
      rawOutput cfg entries.getLast? entry := by
  rw [controlOutput_appendTrimmed]
  cases entries.getLast? with
  | none => rfl
  | some previous => rfl

theorem getLast?_appendTrimmed (entries : List Rat) (entry : Rat) :
    (appendTrimmed entries entry).getLast? = some entry := by
  unfold appendTrimmed
  split
  · rename_i long
    cases entries with
    | nil => simp at long
    | cons first rest =>
        change (rest ++ [entry]).getLast? = some entry
        exact List.getLast?_concat
  · exact List.getLast?_concat

/-! ### Sequences of calls -/

def EstimatorState.runFrom (cfg : Config) (estimator : EstimatorState) (readings : List Rat) :
    EstimatorState :=
  readings.foldl (fun current reading => (current.accumulate cfg reading).1) estimator

def rawChanges (cfg : Config) : EstimatorState → List Rat → List Int
  | _, [] => []
  | estimator, reading :: rest =>
      (estimator.accumulate cfg reading).2 ::
        rawChanges cfg (estimator.accumulate cfg reading).1 rest

def clampedOutputs (cfg : Config) : Option Rat → List Rat → List Rat
  | _, [] => []
  | previous, reading :: rest =>
      max (-1) (min 1 (rawOutput cfg previous (cfg.desiredCredit - reading))) ::
        clampedOutputs cfg (some (cfg.desiredCredit - reading)) rest

structure EstimatorState.Steady (estimator : EstimatorState) (previous : Option Rat) :
    Prop where
  above : -1 < estimator.increaseOnDflag
  below : estimator.increaseOnDflag < 1
  last : estimator.difflist.getLast? = previous

theorem EstimatorState.initial_steady : EstimatorState.initial.Steady none :=
  ⟨by unfold initial; norm_num, by unfold initial; norm_num, rfl⟩

section Calls

variable (cfg : Config) {estimator : EstimatorState} {previous : Option Rat}

theorem EstimatorState.Steady.accumulate (steady : estimator.Steady previous)
    (reading : Rat) :
    (estimator.accumulate cfg reading).1.Steady (some (cfg.desiredCredit - reading)) ∧
      ((estimator.accumulate cfg reading).2 : Rat) +
          (estimator.accumulate cfg reading).1.increaseOnDflag =
        estimator.increaseOnDflag +
          max (-1) (min 1 (rawOutput cfg previous (cfg.desiredCredit - reading))) ∧
      -1 ≤ (estimator.accumulate cfg reading).2 ∧
      (estimator.accumulate cfg reading).2 ≤ 1 := by
  have outEq : boundOutput (controlOutput cfg.P_m cfg.D_m
      (appendTrimmed estimator.difflist (cfg.desiredCredit - reading))) =
        max (-1) (min 1 (rawOutput cfg previous (cfg.desiredCredit - reading))) := by
    rw [controlOutput_rawOutput, boundOutput_eq, steady.last]
  have bounds := boundOutput_bounds (controlOutput cfg.P_m cfg.D_m
    (appendTrimmed estimator.difflist (cfg.desiredCredit - reading)))
  rw [outEq] at bounds
  have above := steady.above
  have below := steady.below
  unfold EstimatorState.accumulate
  dsimp only
  rw [outEq]
  obtain ⟨split, low, high⟩ := wholeUnits_split (estimator.increaseOnDflag +
    max (-1) (min 1 (rawOutput cfg previous (cfg.desiredCredit - reading))))
  refine ⟨⟨low, high, getLast?_appendTrimmed _ _⟩, ?_, ?_⟩
  · rw [add_comm]
    exact split.sum
  · apply wholeUnits_one
    · linarith [bounds.1]
    · linarith [bounds.2]

/-- By induction over the readings: the units taken out and the rest add up to
what was there and what came in. -/
theorem EstimatorState.Steady.run (steady : estimator.Steady previous)
    (readings : List Rat) :
    (∃ last, (estimator.runFrom cfg readings).Steady last) ∧
      ((rawChanges cfg estimator readings).sum : Rat) +
          (estimator.runFrom cfg readings).increaseOnDflag =
        estimator.increaseOnDflag + (clampedOutputs cfg previous readings).sum ∧
      ∀ changeVal ∈ rawChanges cfg estimator readings, -1 ≤ changeVal ∧ changeVal ≤ 1 := by
  induction readings generalizing estimator previous with
  | nil =>
      refine ⟨⟨previous, steady⟩, ?_, ?_⟩
      · simp [rawChanges, clampedOutputs, EstimatorState.runFrom]
      · intro changeVal member
        cases member
  | cons reading rest ih =>
      obtain ⟨next, balance, units⟩ := steady.accumulate cfg reading
      obtain ⟨steadyEnd, sums, all⟩ := ih next
      refine ⟨steadyEnd, ?_, ?_⟩
      · have unfolded : EstimatorState.runFrom cfg estimator (reading :: rest) =
            EstimatorState.runFrom cfg (estimator.accumulate cfg reading).1 rest := rfl
        rw [unfolded]
        unfold rawChanges clampedOutputs
        rw [List.sum_cons, List.sum_cons, Int.cast_add]
        linarith
      · intro changeVal member
        rcases List.mem_cons.mp member with first | later
        · rw [first]
          exact units
        · exact all changeVal later

end Calls

/-! ### The number of on-demand nodes asked for -/

theorem targetOnD_bounds {changeVal : Int} (low : -1 ≤ changeVal) (high : changeVal ≤ 1)
    (call : EstimatorCall) :
    |targetOnD changeVal call - call.onD| ≤ 1 ∧ 0 ≤ targetOnD changeVal call ∧
      targetOnD changeVal call ≤ call.onD + call.unusedOnD := by
  unfold targetOnD
  dsimp only
  rw [abs_le]
  split <;> split <;> omega

theorem resourceEstimator_some {cfg : Config} {estimator after : EstimatorState}
    {call : EstimatorCall} {od b : Int}
    (returned : resourceEstimator cfg estimator call = some (after, od, b)) :
    after = (estimator.accumulate cfg call.creditTotal).1 ∧
      od = targetOnD (estimator.accumulate cfg call.creditTotal).2 call := by
  rw [resourceEstimator_eq] at returned
  obtain ⟨found, _lookup, same⟩ := Option.map_eq_some_iff.mp returned
  obtain ⟨afterEq, rest⟩ := Prod.mk.inj same
  exact ⟨afterEq.symm, (Prod.mk.inj rest).1.symm⟩

/-- After any sequence of calls less than one unit is left over, every call
moved by at most one node, the moves and the rest add up to the clamped
outputs, and the next call's loops end and its answer is within one node and
within what there is. -/
theorem accumulator_balanced (cfg : Config) (readings : List Rat) :
    (-1 < (EstimatorState.initial.runFrom cfg readings).increaseOnDflag ∧
      (EstimatorState.initial.runFrom cfg readings).increaseOnDflag < 1) ∧
    (∀ changeVal ∈ rawChanges cfg .initial readings,
      changeVal = -1 ∨ changeVal = 0 ∨ changeVal = 1) ∧
    ((rawChanges cfg .initial readings).sum : Rat) +
        (EstimatorState.initial.runFrom cfg readings).increaseOnDflag =
      (clampedOutputs cfg none readings).sum ∧
    (∀ reading, ∃ middle,
      Loops Rising moveUp ((EstimatorState.initial.runFrom cfg readings).increaseOnDflag +
        boundOutput (controlOutput cfg.P_m cfg.D_m (appendTrimmed
          (EstimatorState.initial.runFrom cfg readings).difflist
          (cfg.desiredCredit - reading))), 0) middle ∧
      Loops Falling moveDown middle
        (((EstimatorState.initial.runFrom cfg readings).accumulate cfg reading).1.increaseOnDflag,
          ((EstimatorState.initial.runFrom cfg readings).accumulate cfg reading).2)) ∧
    ∀ (call : EstimatorCall) (after : EstimatorState) (od b : Int),
      resourceEstimator cfg (EstimatorState.initial.runFrom cfg readings) call =
        some (after, od, b) →
      after = EstimatorState.initial.runFrom cfg (readings ++ [call.creditTotal]) ∧
        |od - call.onD| ≤ 1 ∧ 0 ≤ od ∧ od ≤ call.onD + call.unusedOnD := by
  obtain ⟨⟨last, steady⟩, sums, units⟩ :=
    EstimatorState.initial_steady.run cfg readings
  refine ⟨⟨steady.above, steady.below⟩, ?_, ?_, ?_, ?_⟩
  · intro changeVal member
    have bounds := units changeVal member
    omega
  · rw [sums]
    exact zero_add _
  · intro reading
    exact wholeUnits_loops _
  · intro call after od b returned
    obtain ⟨afterEq, odEq⟩ := resourceEstimator_some returned
    obtain ⟨_next, _balance, low, high⟩ := steady.accumulate cfg call.creditTotal
    refine ⟨?_, ?_⟩
    · rw [afterEq]
      unfold EstimatorState.runFrom
      rw [List.foldl_append]
      rfl
    · rw [odEq]
      exact targetOnD_bounds low high call

end AutoBurst.Controller
