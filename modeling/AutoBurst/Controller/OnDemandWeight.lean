/-
The weights of on-demand nodes. A node that is started while another runs
copies that one's weight, so the top weight given at the start spreads; a node
that is started while none runs gets weight 1 instead.
-/

import AutoBurst.Controller.BurstableWeight
import AutoBurst.Controller.Snapshot

namespace AutoBurst.Controller

open Runs

structure Fleet.TopWeight (cfg : Config) (fleet : Fleet) : Prop where
  currOnD : ∀ node ∈ fleet.currOnD, node.weight = cfg.H
  currBur : ∀ node ∈ fleet.currBur, node.weight ≤ cfg.H
  sorting : ∀ node ∈ fleet.sorting, node.weight ≤ cfg.H
  pending : ∀ node ∈ fleet.stoppedInstancesPending, node.weight ≤ cfg.H

/-- An on-demand node is started only while another one runs, unless the top
weight is 1. -/
def CopiesTopWeight (cfg : Config) (state : State) : Act → Prop
  | .main _input => state.startsFirstOnD = true → cfg.H = 1
  | .short _input => True
  | .clientDone => True

instance (cfg : Config) (state : State) (action : Act) :
    Decidable (CopiesTopWeight cfg state action) :=
  match action with
  | .main _input => inferInstanceAs (Decidable (_ → _))
  | .short _input => inferInstanceAs (Decidable True)
  | .clientDone => inferInstanceAs (Decidable True)

def TopWeightRisk (cfg : Config) (risk : Risk) : Prop := risk = .firstOnD → cfg.H = 1

section Moves

variable {cfg : Config} {first last : Fleet}

private theorem onDweight_top (top : ∀ node ∈ first.currOnD, node.weight = cfg.H)
    (nonempty : first.currOnD ≠ []) : first.onDweight = cfg.H := by
  unfold Fleet.onDweight
  split
  · rename_i empty
    exact absurd empty nonempty
  · rename_i node rest head
    exact top node (by rw [head]; exact List.mem_cons_self)

/-- Only a start adds a running on-demand node, and it copies a weight. -/
theorem Move.topOnD (move : Move cfg (TopWeightRisk cfg) first last)
    (top : ∀ node ∈ first.currOnD, node.weight = cfg.H) :
    ∀ node ∈ last.currOnD, node.weight = cfg.H := by
  cases move with
  | startOnD head weighed _opened =>
      have given : first.onDweight = cfg.H := by
        by_cases empty : first.currOnD = []
        · have one : cfg.H = 1 := weighed empty rfl
          rw [one]
          unfold Fleet.onDweight
          rw [empty]
        · exact onDweight_top top empty
      exact forall_snoc top given
  | stopOnD head => exact (forall_uncons head top).2
  | _ => exact top

theorem Fleet.TopWeight.of_parts {fleet : Fleet}
    (onD : ∀ node ∈ fleet.currOnD, node.weight = cfg.H) (bur : fleet.BurWeights (· ≤ cfg.H)) :
    fleet.TopWeight cfg :=
  ⟨onD, bur.currBur, bur.sorting, bur.pending⟩

end Moves

/-! ### Runs -/

def OnDemandFirst (upstream : List Node) : Prop :=
  ∀ onDemand ∈ upstream, ∀ burstable ∈ upstream,
    onDemand.burstable = false → burstable.burstable = true → burstable.weight ≤ onDemand.weight

instance (upstream : List Node) : Decidable (OnDemandFirst upstream) :=
  inferInstanceAs (Decidable (∀ onDemand ∈ upstream, _))

theorem rotation_onDemandFirst {cfg : Config} {fleet : Fleet} (top : fleet.TopWeight cfg)
    (typed : fleet.Typed) : OnDemandFirst fleet.rotation := by
  intro onDemand there burstable here kind otherKind
  have exact : onDemand.weight = cfg.H := by
    simp only [Fleet.rotation, List.mem_append] at there
    rcases there with (running | bur) | pending
    · exact top.currOnD onDemand running
    · rw [typed.currBur onDemand bur] at kind
      cases kind
    · rw [typed.pending onDemand pending] at kind
      cases kind
  simp only [Fleet.rotation, List.mem_append] at here
  rw [exact]
  rcases here with (running | bur) | pending
  · rw [typed.currOnD burstable running] at otherKind
    cases otherKind
  · exact top.currBur burstable bur
  · exact top.pending burstable pending

section Runs

variable {est : Estimator} {cfg : Config} {base : UpstreamBlock} {created : List Info}
  {input : StartInput} {start state : State}

private theorem startUp_topOnD (started : startUp cfg base created input = some start) :
    ∀ node ∈ start.fleet.currOnD, node.weight = cfg.H := by
  obtain ⟨fleet, _taken, launched⟩ := startUp_launched started
  obtain ⟨burCost, ondCost, lists⟩ := launched.lists
  rw [lists]
  intro node member
  obtain ⟨original, _there, rfl⟩ := List.mem_map.mp member
  rfl

theorem reach_topWeight (ordered : cfg.L ≤ cfg.H)
    (started : startUp cfg base created input = some start)
    (reach : Reach (step est cfg) (CopiesTopWeight cfg) start state) :
    state.fleet.TopWeight cfg := by
  apply Fleet.TopWeight.of_parts
  · refine reach_fleet (TopWeightRisk cfg) ?_ started reach
      (fun fleet => ∀ node ∈ fleet.currOnD, node.weight = cfg.H) (startUp_topOnD started)
      (fun _first _last move => move.topOnD)
    intro before action allowed risk risky first
    cases action with
    | main input =>
        subst first
        exact allowed risky
    | short input => cases risky
    | clientDone => cases risky
  · exact reach_burWeights (fun weight => (clampWeight_bounds ordered weight).2) ordered started
      reach

/-- The deployed list is that of the start or of the last update. -/
theorem reach_onDemandFirst (ordered : cfg.L ≤ cfg.H)
    (started : startUp cfg base created input = some start)
    (reach : Reach (step est cfg) (CopiesTopWeight cfg) start state) :
    OnDemandFirst state.upstream := by
  induction reach with
  | start =>
      have initial : Reach (step est cfg) (CopiesTopWeight cfg) start start := .start
      rw [startUp_rotation started]
      exact rotation_onDemandFirst (reach_topWeight ordered started initial) (startUp_typed started)
  | @next before after action reached permitted taken ih =>
      have next : Reach (step est cfg) (CopiesTopWeight cfg) start after :=
        reached.next action permitted taken
      rcases step_upstream taken (reach_sortHeld started reached) with kept | updated
      · rw [kept]
        exact ih
      · rw [updated]
        exact rotation_onDemandFirst (reach_topWeight ordered started next)
          (reach_typed started next)

/-- With ordered bounds, in every run that starts on-demand nodes only while one
is running, or has top weight 1, every running on-demand node has the top weight
and none is deployed below a burstable one. -/
theorem onDemand_topWeight (est : Estimator) (cfg : Config) (base : UpstreamBlock)
    (created : List Info) (input : StartInput) (start state : State)
    (ordered : cfg.L ≤ cfg.H) (started : startUp cfg base created input = some start)
    (reach : Reach (step est cfg) (CopiesTopWeight cfg) start state) :
    (∀ node ∈ state.fleet.currOnD, node.weight = cfg.H) ∧ OnDemandFirst state.upstream :=
  ⟨(reach_topWeight ordered started reach).currOnD, reach_onDemandFirst ordered started reach⟩

end Runs

/-! ### The first on-demand node -/

/-- The estimator asks for one on-demand node while none is running: the node
gets weight 1 of 1000 and is deployed below both burstable nodes. -/
theorem first_onDemand_weight_one :
    ∃ start state, sampleStart sampleConfig = some start ∧
      Reach (step (policies sampleConfig) sampleConfig) (fun _ _ => True) start state ∧
      (∃ node ∈ state.fleet.currOnD, node.weight ≠ sampleConfig.H) ∧
      ¬OnDemandFirst state.upstream := by
  have seen : (sampleRun sampleConfig (fun _ _ => True)
      (List.replicate 11 sampleMain ++ sampleLocked ++ [sampleShort .empty])).map (fun state =>
        (state.fleet.currOnD.map Node.weight, decide (OnDemandFirst state.upstream))) =
      some ([1], false) := by decide +kernel
  obtain ⟨state, ran, same⟩ := Option.map_eq_some_iff.mp seen
  simp only [Prod.mk.injEq, decide_eq_false_iff_not] at same
  obtain ⟨weights, first⟩ := same
  obtain ⟨start, started, reach⟩ := sampleRun_reach ran
  have light : 1 ∈ state.fleet.currOnD.map Node.weight := by
    rw [weights]
    exact List.mem_singleton_self 1
  obtain ⟨node, member, weight⟩ := List.mem_map.mp light
  refine ⟨start, state, started, reach, ⟨node, member, ?_⟩, first⟩
  rw [weight]
  decide

def sampleOnDemand : Config := { sampleConfig with onDnodes := 1 }

/-- With the on-demand node running from the start. -/
theorem onDemand_topWeight_sample :
    ∃ state, sampleRun sampleOnDemand (CopiesTopWeight sampleOnDemand)
        (List.replicate 12 sampleMain ++ sampleLocked ++ [sampleShort .empty]) = some state ∧
      state.upstream.map Node.id = ["i-01", "i-02", "i-03"] ∧
      (∀ node ∈ state.fleet.currOnD, node.weight = sampleOnDemand.H) ∧
      OnDemandFirst state.upstream := by
  have seen : (sampleRun sampleOnDemand (CopiesTopWeight sampleOnDemand)
      (List.replicate 12 sampleMain ++ sampleLocked ++ [sampleShort .empty])).map (fun state =>
        state.upstream.map Node.id) = some ["i-01", "i-02", "i-03"] := by decide +kernel
  obtain ⟨state, ran, listed⟩ := Option.map_eq_some_iff.mp seen
  obtain ⟨start, started, reach⟩ := sampleRun_reach ran
  exact ⟨state, ran, listed, onDemand_topWeight (policies sampleOnDemand) sampleOnDemand
    ⟨"least_conn", []⟩ sampleCreated ⟨true, true, some 0, fun _ => 0⟩ start state (by decide)
    started reach⟩

end AutoBurst.Controller
