/-
How `latency_optimizer` orders the weights it writes: by credit among the
running burstable nodes, draining nodes above them, and upwards with latency.

Nothing is used about the logarithm, and about the power only that it is
monotone.
-/

import AutoBurst.Controller.BurstableWeight
import Mathlib.Order.Bounds.Basic

namespace AutoBurst.Controller

/-! ### Clamping -/

theorem clampWeight_mono (cfg : Config) {first second : Rat} (le : first ≤ second) :
    cfg.clampWeight first ≤ cfg.clampWeight second :=
  truncate_mono (max_le_max (min_le_min le le_rfl) le_rfl)

theorem clampLog_mono (cfg : Config) {first second : Rat} (le : first ≤ second) :
    cfg.clampLog first ≤ cfg.clampLog second :=
  max_le_max (min_le_min le le_rfl) le_rfl

/-! ### The least credit -/

private theorem foldl_least (bur : List Node) (start : Rat) :
    let least := bur.foldl (fun least node =>
      if node.creditBalance < least then node.creditBalance else least) start
    least ≤ start ∧ (∀ node ∈ bur, least ≤ node.creditBalance) ∧
      (least = start ∨ ∃ node ∈ bur, node.creditBalance = least) := by
  induction bur generalizing start with
  | nil => exact ⟨le_rfl, fun _node impossible => absurd impossible List.not_mem_nil, .inl rfl⟩
  | cons node rest ih =>
      rw [List.foldl_cons]
      obtain ⟨below, lower, seen⟩ := ih (if node.creditBalance < start then node.creditBalance
        else start)
      dsimp only at below lower seen ⊢
      by_cases smaller : node.creditBalance < start
      · rw [if_pos smaller] at below lower seen ⊢
        refine ⟨le_trans below (le_of_lt smaller), List.forall_mem_cons.mpr ⟨below, lower⟩, .inr ?_⟩
        rcases seen with same | ⟨other, member, same⟩
        · exact ⟨node, List.mem_cons_self, same.symm⟩
        · exact ⟨other, List.mem_cons_of_mem _ member, same⟩
      · rw [if_neg smaller] at below lower seen ⊢
        refine ⟨below, List.forall_mem_cons.mpr ⟨le_trans below (not_lt.mp smaller), lower⟩, ?_⟩
        rcases seen with same | ⟨other, member, same⟩
        · exact .inl same
        · exact .inr ⟨other, List.mem_cons_of_mem _ member, same⟩

/-- The search returns a credit that it has seen, and none of them is smaller. -/
theorem minCredit_least (first : Node) (rest : List Node) :
    IsLeast {credit | ∃ node ∈ first :: rest, node.creditBalance = credit}
      (minCredit first (first :: rest)) := by
  obtain ⟨_below, lower, seen⟩ := foldl_least (first :: rest) first.creditBalance
  constructor
  · rcases seen with same | found
    · exact ⟨first, List.mem_cons_self, same.symm⟩
    · exact found
  · rintro credit ⟨node, member, rfl⟩
    exact lower node member

theorem minCredit_perm {first second : Node} {rest others : List Node}
    (same : (first :: rest).Perm (second :: others)) :
    minCredit first (first :: rest) = minCredit second (second :: others) := by
  have credits : {credit | ∃ node ∈ first :: rest, node.creditBalance = credit} =
      {credit | ∃ node ∈ second :: others, node.creditBalance = credit} := by
    ext credit
    exact exists_congr fun node => and_congr_left fun _equal => same.mem_iff
  have least := minCredit_least second others
  rw [← credits] at least
  exact (minCredit_least first rest).unique least

/-! ### One call -/

def burWeight (cfg : Config) (lweight least credit : Rat) : Int :=
  cfg.clampWeight (if credit = least then cfg.pow10 lweight - 1 else cfg.pow10 lweight)

def pendingWeight (cfg : Config) (lweight : Rat) : Int :=
  cfg.clampWeight (cfg.pow10 (lweight + 1 / 10))

def Node.weighing (node : Node) (weight : Int) : Node := { node with weight := weight }

/-- A numeric latency and a running node: every weight is written anew. -/
theorem latencyOptimizer_numeric (cfg : Config) (optimizer : OptimizerState) (first : Node)
    (rest pending : List Node) (latencyVal : Rat) :
    latencyOptimizer cfg optimizer (first :: rest) (.numeric latencyVal) pending =
      { optimizer := optimizer.observe cfg latencyVal
        bur := (first :: rest).map fun node => node.weighing
          (burWeight cfg (optimizer.observe cfg latencyVal).lweight
            (minCredit first (first :: rest)) node.creditBalance)
        burStopPending := pending.map fun node => node.weighing
          (pendingWeight cfg (optimizer.observe cfg latencyVal).lweight)
        raised := false } :=
  rfl

section Order

variable {cfg : Config} {lweight least : Rat}

theorem burWeight_le (cfg : Config) (lweight least credit : Rat) :
    burWeight cfg lweight least credit ≤ cfg.clampWeight (cfg.pow10 lweight) := by
  apply clampWeight_mono
  split
  · exact sub_le_self _ zero_le_one
  · exact le_rfl

/-- Of two different credits the greater one is not the least. -/
theorem burWeight_mono {smaller greater : Rat} (above : least ≤ smaller)
    (less : smaller < greater) :
    burWeight cfg lweight least smaller ≤ burWeight cfg lweight least greater := by
  have notLeast : greater ≠ least := ne_of_gt (lt_of_le_of_lt above less)
  have full : burWeight cfg lweight least greater = cfg.clampWeight (cfg.pow10 lweight) := by
    unfold burWeight
    rw [if_neg notLeast]
  rw [full]
  exact burWeight_le cfg lweight least smaller

theorem burWeight_le_pendingWeight (monotone : Monotone cfg.pow10) (credit : Rat) :
    burWeight cfg lweight least credit ≤ pendingWeight cfg lweight := by
  refine le_trans (burWeight_le cfg lweight least credit) (clampWeight_mono cfg (monotone ?_))
  linarith

end Order

/-- The weights after a call are ordered like the credits, those of draining
nodes are above all others, and no order of the lists matters. -/
theorem weights_follow_credit (cfg : Config) (monotone : Monotone cfg.pow10)
    (optimizer : OptimizerState) (bur pending : List Node) (nonempty : bur ≠ [])
    (latencyVal : Rat) :
    let outcome := latencyOptimizer cfg optimizer bur (.numeric latencyVal) pending
    outcome.raised = false ∧
    (∀ first ∈ outcome.bur, ∀ second ∈ outcome.bur,
      first.creditBalance < second.creditBalance → first.weight ≤ second.weight) ∧
    (∀ first ∈ outcome.bur, ∀ second ∈ outcome.bur,
      first.creditBalance = second.creditBalance → first.weight = second.weight) ∧
    (∀ draining ∈ outcome.burStopPending, ∀ running ∈ outcome.bur,
      running.weight ≤ draining.weight) ∧
    ∀ otherBur otherPending : List Node, otherBur.Perm bur → otherPending.Perm pending →
      let other := latencyOptimizer cfg optimizer otherBur (.numeric latencyVal) otherPending
      other.optimizer.lweight = outcome.optimizer.lweight ∧
      (∀ (i j : Nat) (node : Node), bur[i]? = some node → otherBur[j]? = some node →
        other.bur[j]? = outcome.bur[i]?) ∧
      ∀ (i j : Nat) (node : Node), pending[i]? = some node → otherPending[j]? = some node →
        other.burStopPending[j]? = outcome.burStopPending[i]? := by
  cases bur with
  | nil => exact absurd rfl nonempty
  | cons first rest =>
      have least := (minCredit_least first rest).2
      rw [latencyOptimizer_numeric]
      refine ⟨rfl, ?_, ?_, ?_, ?_⟩
      · intro smaller here greater there less
        obtain ⟨node, member, rfl⟩ := List.mem_map.mp here
        obtain ⟨other, _other, rfl⟩ := List.mem_map.mp there
        exact burWeight_mono (least ⟨node, member, rfl⟩) less
      · intro one here two there same
        obtain ⟨node, _member, rfl⟩ := List.mem_map.mp here
        obtain ⟨other, _other, rfl⟩ := List.mem_map.mp there
        exact congrArg (burWeight cfg _ _) same
      · intro draining here running there
        obtain ⟨node, _member, rfl⟩ := List.mem_map.mp here
        obtain ⟨other, _other, rfl⟩ := List.mem_map.mp there
        exact burWeight_le_pendingWeight monotone other.creditBalance
      · intro otherBur otherPending sameBur _samePending
        cases otherBur with
        | nil => exact absurd sameBur.nil_eq (List.cons_ne_nil first rest).symm
        | cons second others =>
            rw [latencyOptimizer_numeric, minCredit_perm sameBur]
            refine ⟨rfl, ?_, ?_⟩
            · intro i j node here there
              simp only [List.getElem?_map, here, there]
            · intro i j node here there
              simp only [List.getElem?_map, here, there]

def sampleBur : List Node :=
  [⟨⟨"i-02", "t3.large", "172.31.0.2"⟩, 100, 0, 5⟩, ⟨⟨"i-03", "t3.large", "172.31.0.3"⟩, 100, 0, 9⟩]

def samplePending : List Node := [⟨⟨"i-04", "t3.large", "172.31.0.4"⟩, 100, 0, 1⟩]

theorem sampleConfig_pow10_mono : Monotone sampleConfig.pow10 := by
  intro x y le
  change (if x < 3 then (100 : Rat) else 1000) ≤ if y < 3 then 100 else 1000
  by_cases small : y < 3
  · rw [if_pos small, if_pos (lt_of_le_of_lt le small)]
  · rw [if_neg small]
    split <;> norm_num

theorem weights_follow_credit_sample :
    let outcome := latencyOptimizer sampleConfig ⟨[], 2⟩ sampleBur (.numeric 100) samplePending
    outcome.bur.map Node.weight = [999, 1000] ∧
      (∀ first ∈ outcome.bur, ∀ second ∈ outcome.bur,
        first.creditBalance < second.creditBalance → first.weight ≤ second.weight) ∧
      ∀ draining ∈ outcome.burStopPending, ∀ running ∈ outcome.bur,
        running.weight ≤ draining.weight := by
  obtain ⟨_returned, ordered, _equal, draining, _permuted⟩ := weights_follow_credit sampleConfig
    sampleConfig_pow10_mono ⟨[], 2⟩ sampleBur samplePending (List.cons_ne_nil _ _) 100
  refine ⟨?_, ordered, draining⟩
  decide +kernel

/-! ### Two latencies -/

section Latencies

variable {cfg : Config}

theorem controlOutput_mono (proportional : 0 ≤ cfg.P) (differential : 0 ≤ cfg.D)
    (error : List Rat) {first second : Rat} (le : first ≤ second) :
    controlOutput cfg.P cfg.D (appendTrimmed error first) ≤
      controlOutput cfg.P cfg.D (appendTrimmed error second) := by
  have gain := mul_le_mul_of_nonneg_left le proportional
  rw [controlOutput_appendTrimmed, controlOutput_appendTrimmed]
  cases error.getLast? with
  | none => exact gain
  | some previous =>
      have slope := mul_le_mul_of_nonneg_left (sub_le_sub_right le previous) differential
      exact add_le_add gain slope

theorem observe_mono (proportional : 0 ≤ cfg.P) (differential : 0 ≤ cfg.D)
    (optimizer : OptimizerState) {first second : Rat} (le : first ≤ second) :
    (optimizer.observe cfg first).lweight ≤ (optimizer.observe cfg second).lweight := by
  have out := controlOutput_mono proportional differential optimizer.error
    (sub_le_sub_right le cfg.meanSLO)
  exact clampLog_mono cfg (add_le_add_right out optimizer.lweight)

theorem burWeight_lweight_mono (monotone : Monotone cfg.pow10) {first second : Rat}
    (le : first ≤ second) (least credit : Rat) :
    burWeight cfg first least credit ≤ burWeight cfg second least credit := by
  apply clampWeight_mono
  split
  · exact sub_le_sub_right (monotone le) 1
  · exact monotone le

theorem pendingWeight_mono (monotone : Monotone cfg.pow10) {first second : Rat}
    (le : first ≤ second) : pendingWeight cfg first ≤ pendingWeight cfg second :=
  clampWeight_mono cfg (monotone (add_le_add_left le (1 / 10)))

end Latencies

def NotHeavier (first second : Node) : Prop :=
  first.info = second.info ∧ first.weight ≤ second.weight

theorem notHeavier_weighing (node : Node) {low high : Int} (le : low ≤ high) :
    NotHeavier (node.weighing low) (node.weighing high) :=
  ⟨rfl, le⟩

/-- From the same state, a higher latency lowers neither the logarithm of the
weight nor any weight. -/
theorem latency_raises_weights (cfg : Config) (proportional : 0 ≤ cfg.P)
    (differential : 0 ≤ cfg.D) (monotone : Monotone cfg.pow10) (optimizer : OptimizerState)
    (bur pending : List Node) (nonempty : bur ≠ []) (x y : Rat) (le : x ≤ y) :
    let low := latencyOptimizer cfg optimizer bur (.numeric x) pending
    let high := latencyOptimizer cfg optimizer bur (.numeric y) pending
    low.raised = false ∧ high.raised = false ∧
      low.optimizer.lweight ≤ high.optimizer.lweight ∧
      List.Forall₂ NotHeavier low.bur high.bur ∧
      List.Forall₂ NotHeavier low.burStopPending high.burStopPending := by
  have logs := observe_mono proportional differential optimizer le
  cases bur with
  | nil => exact absurd rfl nonempty
  | cons first rest =>
      rw [latencyOptimizer_numeric, latencyOptimizer_numeric]
      refine ⟨rfl, rfl, logs, ?_, ?_⟩
      · rw [List.forall₂_map_left_iff, List.forall₂_map_right_iff, List.forall₂_same]
        intro node _member
        exact notHeavier_weighing node (burWeight_lweight_mono monotone logs _ node.creditBalance)
      · rw [List.forall₂_map_left_iff, List.forall₂_map_right_iff, List.forall₂_same]
        intro node _member
        exact notHeavier_weighing node (pendingWeight_mono monotone logs)

/-- The error before the two calls is greater than either of theirs. -/
theorem latency_raises_weights_sample :
    let low := latencyOptimizer sampleConfig ⟨[50], 5 / 2⟩ sampleBur (.numeric 8) samplePending
    let high := latencyOptimizer sampleConfig ⟨[50], 5 / 2⟩ sampleBur (.numeric 100) samplePending
    low.bur.map Node.weight = [100, 100] ∧ high.bur.map Node.weight = [999, 1000] ∧
      List.Forall₂ NotHeavier low.bur high.bur := by
  obtain ⟨_low, _high, _logs, bur, _pending⟩ := latency_raises_weights sampleConfig (by decide)
    (by decide) sampleConfig_pow10_mono ⟨[50], 5 / 2⟩ sampleBur samplePending
    (List.cons_ne_nil _ _) 8 100 (by decide)
  refine ⟨?_, ?_, bur⟩
  · decide +kernel
  · decide +kernel

end AutoBurst.Controller
