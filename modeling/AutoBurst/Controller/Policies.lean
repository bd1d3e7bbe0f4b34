/-
The policies of the controller: src/src/autoBurst.py.

Arithmetic is exact. `math.log10` and `pow(10, .)` are two functions of the
configuration about which nothing is assumed here. Times, log lines and the
unused sum of errors are left out.
-/

import AutoBurst.Controller.Instance
import AutoBurst.Controller.ThroughputTable
import Mathlib.Tactic.Linarith

namespace AutoBurst.Controller

/-- The experiment's configuration with the table as filled up by the
constructor of the policies. -/
structure Config where
  H : Int
  L : Int
  onDnodes : Nat
  burNodes : Nat
  initWeight : Rat
  meanSLO : Rat
  P : Rat
  D : Rat
  potentialIncreaseFactor : Rat
  desiredLoad : Rat
  P_m : Rat
  D_m : Rat
  desiredCredit : Rat
  throughputTable : ThroughputTable
  log10 : Rat → Rat
  pow10 : Rat → Rat

/-- `int(max(min(weight, self.H), self.L))` -/
def Config.clampWeight (cfg : Config) (weight : Rat) : Int :=
  truncate (max (min weight cfg.H) cfg.L)

/-- `append`, then `pop(0)` once there are more than three entries. -/
def appendTrimmed (entries : List Rat) (entry : Rat) : List Rat :=
  if (entries ++ [entry]).length > 3 then (entries ++ [entry]).drop 1 else entries ++ [entry]

/-- The output of a controller with a proportional and a differential gain, fed
with the last two entries. The list is never empty. -/
def controlOutput (proportional differential : Rat) (entries : List Rat) : Rat :=
  match entries.reverse with
  | [] => 0
  | [last] => proportional * last
  | last :: previous :: _ => proportional * last + differential * (last - previous)

theorem controlOutput_append (proportional differential : Rat) (entries : List Rat) (entry : Rat) :
    controlOutput proportional differential (entries ++ [entry]) =
      match entries.getLast? with
      | none => proportional * entry
      | some previous => proportional * entry + differential * (entry - previous) := by
  unfold controlOutput
  rw [List.reverse_append, List.reverse_singleton, List.singleton_append, ← List.head?_reverse]
  cases entries.reverse with
  | nil => rfl
  | cons previous rest => rfl

/-- Trimming never drops one of the last two entries. -/
theorem controlOutput_appendTrimmed (proportional differential : Rat) (entries : List Rat)
    (entry : Rat) :
    controlOutput proportional differential (appendTrimmed entries entry) =
      match entries.getLast? with
      | none => proportional * entry
      | some previous => proportional * entry + differential * (entry - previous) := by
  unfold appendTrimmed
  split
  · rename_i long
    cases entries with
    | nil => simp at long
    | cons first rest =>
        cases rest with
        | nil => simp at long
        | cons second others =>
            change controlOutput proportional differential (second :: others ++ [entry]) = _
            rw [controlOutput_append, List.getLast?_cons_cons]
  · exact controlOutput_append proportional differential entries entry

/-! ### Weights -/

structure OptimizerState where
  error : List Rat
  lweight : Rat

def Config.clampLog (cfg : Config) (value : Rat) : Rat :=
  max (min value (cfg.log10 cfg.H)) (cfg.log10 cfg.L)

structure Weighted where
  optimizer : OptimizerState
  onD : List Node
  bur : List Node

/-- `none` is the domain error of `math.log10`. -/
def initWeight (cfg : Config) (onD bur : List Node) : Option Weighted :=
  if cfg.initWeight ≤ 0 ∨ cfg.H ≤ 0 ∨ cfg.L ≤ 0 then none
  else some
    { optimizer := { error := [], lweight := cfg.clampLog (cfg.log10 cfg.initWeight) }
      onD := onD.map fun node => { node with weight := cfg.H }
      bur := bur.map fun node => { node with weight := cfg.clampWeight cfg.initWeight } }

inductive Latency
  | empty
  | numeric (value : Rat)
  | malformed
deriving DecidableEq, Repr

def minCredit (first : Node) (bur : List Node) : Rat :=
  bur.foldl (fun least node =>
    if node.creditBalance < least then node.creditBalance else least) first.creditBalance

def reweigh (cfg : Config) (lweight : Rat) (least : Rat) (node : Node) : Node :=
  let weight := cfg.pow10 lweight
  let weight := if node.creditBalance = least then weight - 1 else weight
  { node with weight := cfg.clampWeight weight }

def reweighPending (cfg : Config) (lweight : Rat) (node : Node) : Node :=
  { node with weight := cfg.clampWeight (cfg.pow10 (lweight + 1 / 10)) }

/-- What `latency_optimizer` leaves behind, whether it returned or raised. -/
structure Optimized where
  optimizer : OptimizerState
  bur : List Node
  burStopPending : List Node
  raised : Bool

def OptimizerState.observe (cfg : Config) (optimizer : OptimizerState) (latencyVal : Rat) :
    OptimizerState :=
  let error := appendTrimmed optimizer.error (latencyVal - cfg.meanSLO)
  { error := error
    lweight := cfg.clampLog (optimizer.lweight + controlOutput cfg.P cfg.D error) }

def latencyOptimizer (cfg : Config) (optimizer : OptimizerState) (bur : List Node)
    (latency : Latency) (burStopPending : List Node) : Optimized :=
  match latency with
  | .empty => ⟨optimizer, bur, burStopPending, false⟩
  | .malformed => ⟨optimizer, bur, burStopPending, true⟩
  | .numeric latencyVal =>
      let next := optimizer.observe cfg latencyVal
      match bur with
      | [] => ⟨next, [], burStopPending, true⟩
      | first :: _ =>
          { optimizer := next
            bur := bur.map (reweigh cfg next.lweight (minCredit first bur))
            burStopPending := burStopPending.map (reweighPending cfg next.lweight)
            raised := false }

/-! ### Resources -/

structure EstimatorState where
  creditTotal : List Rat
  increaseOnDflag : Rat
  difflist : List Rat

def EstimatorState.initial : EstimatorState :=
  { creditTotal := [], increaseOnDflag := 0, difflist := [] }

structure EstimatorCall where
  desiredThroughput : Rat
  creditTotal : Rat
  bur : Nat
  onD : Nat
  unusedOnD : Nat

/-- `arrRate * potentialIncreaseFactor / desiredLoad` -/
def desiredThroughput (cfg : Config) (arrRate : Rat) : Option Rat :=
  if cfg.desiredLoad = 0 then none
  else some (arrRate * cfg.potentialIncreaseFactor / cfg.desiredLoad)

def boundOutput (out : Rat) : Rat :=
  if out > 1 then 1 else if out < -1 then -1 else out

/-- `while self.increaseOnDflag >= 1` -/
def countUp : Nat → Rat → Int → Rat × Int
  | 0, flag, changeVal => (flag, changeVal)
  | fuel + 1, flag, changeVal =>
      if flag ≥ 1 then countUp fuel (flag - 1) (changeVal + 1) else (flag, changeVal)

/-- `while self.increaseOnDflag <= -1` -/
def countDown : Nat → Rat → Int → Rat × Int
  | 0, flag, changeVal => (flag, changeVal)
  | fuel + 1, flag, changeVal =>
      if flag ≤ -1 then countDown fuel (flag + 1) (changeVal - 1) else (flag, changeVal)

/-- Both loops, with as much fuel as the accumulator has whole units. -/
def wholeUnits (flag : Rat) : Rat × Int :=
  let up := countUp flag.floor.toNat flag 0
  countDown (-up.1).floor.toNat up.1 up.2

/-- `none` is an exception of the table lookup. -/
def resourceEstimator (cfg : Config) (estimator : EstimatorState) (call : EstimatorCall) :
    Option (EstimatorState × Int × Int) :=
  let difflist := appendTrimmed estimator.difflist (cfg.desiredCredit - call.creditTotal)
  let out := boundOutput (controlOutput cfg.P_m cfg.D_m difflist)
  let units := wholeUnits (estimator.increaseOnDflag + out)
  let changeVal := if units.2 > call.unusedOnD then (call.unusedOnD : Int) else units.2
  let onD := if call.onD + changeVal < 0 then 0 else call.onD + changeVal
  (findNumberOfBurstable cfg.throughputTable onD call.desiredThroughput 0).map fun b =>
    ( { creditTotal := estimator.creditTotal ++ [call.creditTotal]
        increaseOnDflag := units.1
        difflist := difflist },
      onD,
      if b = -1 then (call.bur : Int) else b)

/-! ### Bounds of a weight -/

theorem truncate_intCast (value : Int) : truncate value = value := by
  unfold truncate
  split
  · exact Rat.floor_intCast value
  · exact Rat.ceil_intCast value

theorem truncate_mono {first second : Rat} (le : first ≤ second) :
    truncate first ≤ truncate second := by
  unfold truncate
  by_cases low : 0 ≤ first
  · rw [if_pos low, if_pos (le_trans low le)]
    exact Rat.floor_monotone le
  · rw [if_neg low]
    by_cases high : 0 ≤ second
    · rw [if_pos high]
      have below : first.ceil ≤ 0 := by
        rw [Rat.ceil_le_iff]
        exact_mod_cast le_of_lt (not_le.mp low)
      have above : 0 ≤ second.floor := by
        rw [Rat.le_floor_iff]
        exact_mod_cast high
      exact le_trans below above
    · rw [if_neg high, Rat.ceil_le_iff]
      exact le_trans le (Rat.le_ceil)

/-- Whatever the requested weight is, the result lies between the two bounds. -/
theorem clampWeight_bounds {cfg : Config} (ordered : cfg.L ≤ cfg.H) (weight : Rat) :
    cfg.L ≤ cfg.clampWeight weight ∧ cfg.clampWeight weight ≤ cfg.H := by
  have cast : (cfg.L : Rat) ≤ cfg.H := by exact_mod_cast ordered
  constructor
  · rw [← truncate_intCast cfg.L]
    exact truncate_mono (le_max_right _ _)
  · conv_rhs => rw [← truncate_intCast cfg.H]
    exact truncate_mono (max_le (min_le_right _ _) cast)

end AutoBurst.Controller
