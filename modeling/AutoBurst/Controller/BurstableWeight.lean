/-
The weights of burstable nodes. Whichever thread writes one, it is the lower
bound itself or clamped between the two bounds, and nodes keep it while they
move between the lists in rotation.
-/

import AutoBurst.Controller.Conservation

namespace AutoBurst.Controller

open Runs

/-! ### Weights across the lists -/

/-- Every burstable node in rotation, or out of its list while that is sorted,
has a weight of this kind. -/
structure Fleet.BurWeights (P : Int → Prop) (fleet : Fleet) : Prop where
  currBur : ∀ node ∈ fleet.currBur, P node.weight
  sorting : ∀ node ∈ fleet.sorting, P node.weight
  pending : ∀ node ∈ fleet.stoppedInstancesPending, P node.weight

section Moves

variable {cfg : Config} {risks : Risk → Prop} {P : Int → Prop} {first last : Fleet}

theorem touched_weights (clamped : ∀ weight, P (cfg.clampWeight weight)) {old new : List Node}
    (touched : List.Forall₂ (Touched cfg) old new) (all : ∀ node ∈ old, P node.weight) :
    ∀ node ∈ new, P node.weight := by
  induction touched with
  | nil => exact all
  | @cons before after olds news same _rest ih =>
      obtain ⟨head, tail⟩ := List.forall_mem_cons.mp all
      refine List.forall_mem_cons.mpr ⟨?_, ih tail⟩
      rcases same.2 with kept | ⟨weight, clamp⟩
      · rw [kept]
        exact head
      · rw [clamp]
        exact clamped weight

theorem Move.burWeights (clamped : ∀ weight, P (cfg.clampWeight weight)) (least : P cfg.L)
    (move : Move cfg risks first last) (weights : first.BurWeights P) : last.BurWeights P := by
  cases move with
  | touch running draining =>
      exact { weights with
        currBur := touched_weights clamped running weights.currBur
        pending := touched_weights clamped draining weights.pending }
  | arrange same =>
      exact { weights with
        pending := fun node member => weights.pending node (same.mem_iff.mp member) }
  | stop _member _risk => exact { weights with }
  | stopped _member => exact { weights with }
  | running _member => exact { weights with }
  | retire found => exact { weights with pending := forall_remove found weights.pending }
  | repoolBur _head _kind _closed => exact { weights with }
  | repoolOnD _head _kind _closed => exact { weights with }
  | startOnD _head _weighed _opened => exact { weights with }
  | failOnD _head => exact { weights with }
  | stopOnD _head => exact { weights with }
  | reactivate head =>
      exact { weights with
        pending := (forall_uncons head weights.pending).2
        currBur := forall_snoc weights.currBur least }
  | startBur _head _opened =>
      exact { weights with currBur := forall_snoc weights.currBur least }
  | failBur _head => exact { weights with }
  | beginSort _idle _risk =>
      exact { weights with
        currBur := fun node member => absurd member List.not_mem_nil
        sorting := weights.currBur }
  | endSort _empty =>
      exact { weights with
        currBur := fun node member => weights.sorting node
          ((sortAscending_perm Node.creditBalance first.sorting).mem_iff.mp member)
        sorting := fun node member => absurd member List.not_mem_nil }
  | drainBur head _risk =>
      obtain ⟨weight, rest⟩ := forall_uncons head weights.currBur
      exact { weights with currBur := rest, pending := forall_snoc weights.pending weight }
  | close _now => exact { weights with }

end Moves

/-! ### The optimizer -/

section Optimizer

variable {est : Estimator} {cfg : Config} {before after : State}

/-- The main thread never writes the state of the latency optimizer. -/
theorem mainStep_optimizer {input : MainInput}
    (taken : mainStep est cfg input before = some after) :
    after.optimizer = before.optimizer := by
  unfold mainStep at taken
  cases here : before.main <;> rw [here] at taken <;> cases taken
  case loopHead => split <;> rfl
  case drainCheck j left =>
    cases left with
    | zero => rfl
    | succ left =>
        simp only [drainCheck]
        split
        · rfl
        · split <;> rfl
  case drainMove j left =>
    unfold drainMove
    split <;> rfl
  case stopIssue i lenStopped =>
    unfold stopIssue
    split
    · split <;> rfl
    · rfl
  case stopBlock i lenStopped =>
    unfold stopBlock
    split
    · split <;> rfl
    · rfl
  case repool left =>
    cases left with
    | zero => rfl
    | succ left =>
        simp only [repool]
        split <;> rfl
  case rate =>
    unfold measureRate
    split
    · rfl
    · dsimp only
      split <;> rfl
  case creditTotal index total throughput =>
    unfold creditTotal
    split <;> rfl
  case estimate total throughput =>
    unfold estimate
    split <;> rfl
  case scaleOnD od b =>
    unfold scaleOnD
    split
    · dsimp only
      split <;> rfl
    · split <;> rfl
  case blockOnD i stop b =>
    unfold blockOnD
    split
    · split <;> rfl
    · rfl
  case scaleBur b =>
    unfold scaleBur
    split
    · dsimp only
      split <;> rfl
    · split <;> rfl
  case blockBur i stop =>
    unfold blockBur
    split
    · split <;> rfl
    · rfl
  case sortStart b => rfl
  case sorting b => rfl
  case drainPick b => rfl
  case sleep => rfl
  case finalWait => split <;> rfl
  case finish => rfl

def OptimizerState.Bounded (cfg : Config) (optimizer : OptimizerState) : Prop :=
  cfg.log10 cfg.L ≤ optimizer.lweight ∧ optimizer.lweight ≤ cfg.log10 cfg.H

theorem clampLog_bounds (ordered : cfg.log10 cfg.L ≤ cfg.log10 cfg.H) (value : Rat) :
    cfg.log10 cfg.L ≤ cfg.clampLog value ∧ cfg.clampLog value ≤ cfg.log10 cfg.H :=
  ⟨le_max_right _ _, max_le (min_le_right _ _) ordered⟩

theorem latencyOptimizer_bounded (ordered : cfg.log10 cfg.L ≤ cfg.log10 cfg.H)
    {optimizer : OptimizerState} (bounded : optimizer.Bounded cfg) (bur : List Node)
    (latency : Latency) (pending : List Node) :
    (latencyOptimizer cfg optimizer bur latency pending).optimizer.Bounded cfg := by
  cases latency with
  | empty => exact bounded
  | malformed => exact bounded
  | numeric value =>
      have next : (optimizer.observe cfg value).Bounded cfg := clampLog_bounds ordered _
      cases bur with
      | nil => exact next
      | cons first rest => exact next

theorem shortStep_bounded (ordered : cfg.log10 cfg.L ≤ cfg.log10 cfg.H) {input : ShortInput}
    (taken : shortStep cfg before input = some after)
    (bounded : before.optimizer.Bounded cfg) : after.optimizer.Bounded cfg := by
  unfold shortStep at taken
  cases here : before.short <;> rw [here] at taken <;> cases taken
  case check => split <;> exact bounded
  case latency => exact bounded
  case locked latency =>
    have next := latencyOptimizer_bounded ordered bounded before.fleet.currBur latency
      before.fleet.stoppedInstancesPending
    unfold shortLocked
    dsimp only
    split <;> exact next
  case sleep => exact bounded
  case leave => exact bounded

end Optimizer

/-! ### Runs -/

section Runs

variable {est : Estimator} {cfg : Config} {base : UpstreamBlock} {created : List Info}
  {input : StartInput} {start state : State} {allowed : State → Act → Prop}

theorem reach_burWeights {P : Int → Prop} (clamped : ∀ weight, P (cfg.clampWeight weight))
    (least : P cfg.L) (started : startUp cfg base created input = some start)
    (reach : Reach (step est cfg) allowed start state) : state.fleet.BurWeights P := by
  refine reach_fleet (fun _ => True) (fun _ _ _ _ _ => trivial) started reach
    (Fleet.BurWeights P) ?_ (fun _ _ move => move.burWeights clamped least)
  obtain ⟨fleet, taken, launched⟩ := startUp_launched started
  obtain ⟨burCost, ondCost, lists⟩ := launched.lists
  rw [lists]
  constructor
  · intro node member
    obtain ⟨original, _there, rfl⟩ := List.mem_map.mp member
    exact clamped _
  · rw [setStartUpNodes_sorting taken]
    exact fun node member => absurd member List.not_mem_nil
  · rw [setStartUpNodes_pending taken]
    exact fun node member => absurd member List.not_mem_nil

theorem startUp_bounded (ordered : cfg.log10 cfg.L ≤ cfg.log10 cfg.H)
    (started : startUp cfg base created input = some start) :
    start.optimizer.Bounded cfg := by
  obtain ⟨fleet, _taken, launched⟩ := Option.bind_eq_some_iff.mp started
  obtain ⟨weighted, weights, ledgers⟩ := Option.bind_eq_some_iff.mp launched
  obtain ⟨burCost, _opened, rest⟩ := Option.bind_eq_some_iff.mp ledgers
  obtain ⟨ondCost, _openedOnD, rfl⟩ := Option.map_eq_some_iff.mp rest
  unfold initWeight at weights
  split at weights
  · cases weights
  · cases weights
    exact clampLog_bounds ordered _

theorem reach_bounded (ordered : cfg.log10 cfg.L ≤ cfg.log10 cfg.H)
    (started : startUp cfg base created input = some start)
    (reach : Reach (step est cfg) allowed start state) : state.optimizer.Bounded cfg := by
  apply reach.invariant (fun state => state.optimizer.Bounded cfg)
    (startUp_bounded ordered started)
  intro before action after taken _permitted bounded
  cases action with
  | main input =>
      rw [mainStep_optimizer taken]
      exact bounded
  | short input => exact shortStep_bounded ordered taken bounded
  | clientDone =>
      cases taken
      exact bounded

/-- In every state of every run the burstable nodes in rotation have weights
between the bounds, and the logarithm of the weight is between theirs. About
the logarithm only its order is used, about the power nothing. -/
theorem burstable_weights_valid (est : Estimator) (cfg : Config) (base : UpstreamBlock)
    (created : List Info) (input : StartInput) (start state : State)
    (positive : 1 ≤ cfg.L) (ordered : cfg.L ≤ cfg.H)
    (monotone : ∀ x y : Rat, 0 < x → x ≤ y → cfg.log10 x ≤ cfg.log10 y)
    (started : startUp cfg base created input = some start)
    (reach : Reach (step est cfg) (fun _ _ => True) start state) :
    (∀ node ∈ state.fleet.currBur ++ state.fleet.sorting ++ state.fleet.stoppedInstancesPending,
      cfg.L ≤ node.weight ∧ node.weight ≤ cfg.H) ∧
      cfg.log10 cfg.L ≤ state.optimizer.lweight ∧
      state.optimizer.lweight ≤ cfg.log10 cfg.H := by
  have logs : cfg.log10 cfg.L ≤ cfg.log10 cfg.H := by
    apply monotone
    · exact_mod_cast positive
    · exact_mod_cast ordered
  have weights := reach_burWeights (P := fun weight => cfg.L ≤ weight ∧ weight ≤ cfg.H)
    (clampWeight_bounds ordered) ⟨le_rfl, ordered⟩ started reach
  refine ⟨?_, reach_bounded logs started reach⟩
  intro node member
  rcases List.mem_append.mp member with running | pending
  · rcases List.mem_append.mp running with listed | sorting
    · exact weights.currBur node listed
    · exact weights.sorting node sorting
  · exact weights.pending node pending

end Runs

/-- One round of the short-term thread under a latency far above the target. -/
theorem burstable_weights_valid_sample :
    ∃ state, sampleRun sampleConfig (fun _ _ => True)
        (List.replicate 3 (sampleShort (.numeric 100))) = some state ∧
      state.fleet.currBur.map Node.weight = [999, 999] ∧ state.optimizer.lweight = 3 ∧
      ∀ node ∈ state.fleet.currBur, sampleConfig.L ≤ node.weight ∧
        node.weight ≤ sampleConfig.H := by
  have seen : (sampleRun sampleConfig (fun _ _ => True)
      (List.replicate 3 (sampleShort (.numeric 100)))).map (fun state =>
        (state.fleet.currBur.map Node.weight, state.optimizer.lweight)) =
      some ([999, 999], 3) := by decide +kernel
  obtain ⟨state, ran, same⟩ := Option.map_eq_some_iff.mp seen
  obtain ⟨weights, lweight⟩ := Prod.mk.inj same
  obtain ⟨start, started, reach⟩ := sampleRun_reach ran
  refine ⟨state, ran, weights, lweight, ?_⟩
  have monotone : ∀ x y : Rat, 0 < x → x ≤ y →
      sampleConfig.log10 x ≤ sampleConfig.log10 y := by
    intro x y _positive le
    change (if x < 1000 then (2 : Rat) else 3) ≤ (if y < 1000 then (2 : Rat) else 3)
    split
    · split <;> norm_num
    · rename_i large
      rw [if_neg (fun small => large (lt_of_le_of_lt le small))]
  intro node member
  exact (burstable_weights_valid (policies sampleConfig) sampleConfig ⟨"least_conn", []⟩
    sampleCreated ⟨true, true, some 0, fun _ => 0⟩ start state (by decide) (by decide)
    monotone started reach).1 node
    (List.mem_append_left _ (List.mem_append_left _ member))

end AutoBurst.Controller
