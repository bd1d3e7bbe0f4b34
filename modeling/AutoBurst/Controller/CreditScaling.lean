/-
Which burstable instances a change of their number picks: those that are drained
have the least credit, those that are taken back have the most, and the pool is
used only for the rest. A scale-down is several steps of the main thread, with
any steps of the other threads between them.
-/

import AutoBurst.Controller.Scaling

namespace AutoBurst.Controller

open Runs

/-! ### Sorted by credit -/

section Sorted

private abbrev noMore (a b : Node) : Prop := a.creditBalance ≤ b.creditBalance

private abbrev noLess (a b : Node) : Prop := b.creditBalance ≤ a.creditBalance

private instance : Std.Total noMore := ⟨fun a b => le_total a.creditBalance b.creditBalance⟩

private instance : IsTrans Node noMore := ⟨fun _a _b _c => le_trans⟩

private instance : Std.Total noLess := ⟨fun a b => le_total b.creditBalance a.creditBalance⟩

private instance : IsTrans Node noLess := ⟨fun _a _b _c first second => le_trans second first⟩

theorem sortAscending_credit (nodes : List Node) :
    (sortAscending Node.creditBalance nodes).Pairwise fun a b =>
      a.creditBalance ≤ b.creditBalance :=
  List.pairwise_insertionSort noMore nodes

theorem sortDescending_credit (nodes : List Node) :
    (sortDescending Node.creditBalance nodes).Pairwise fun a b =>
      b.creditBalance ≤ a.creditBalance :=
  List.pairwise_insertionSort noLess nodes

/-- In a sorted list what is taken from the front precedes what is left. -/
theorem pairwise_take_drop {α : Type*} {relation : α → α → Prop} {items : List α}
    (ordered : items.Pairwise relation) (count : Nat) :
    ∀ taken ∈ items.take count, ∀ left ∈ items.drop count, relation taken left := by
  rw [← List.take_append_drop count items, List.pairwise_append] at ordered
  exact ordered.2.2

end Sorted

/-! ### Scaling up -/

def infos (nodes : List Node) : List Info := nodes.map Node.info

def Fleet.toStart (fleet : Fleet) (b : Int) : Nat :=
  min fleet.bur.length
    (max 0 (b - fleet.currBur.length - fleet.stoppedInstancesPending.length)).toNat

/-- Nobody leaves, draining instances come back by their credit, and the pool is
used for what they leave to be done. -/
structure ScaledUp (credit : String → Rat) (b : Int) (fleet after : Fleet) : Prop where
  picked : ∃ reactivated,
    (reactivated ++ infos after.stoppedInstancesPending).Perm
        (infos fleet.stoppedInstancesPending) ∧
      infos after.currBur =
        infos fleet.currBur ++ reactivated ++ infos (fleet.bur.take (fleet.toStart b)) ∧
      (∀ back ∈ reactivated, ∀ left ∈ infos after.stoppedInstancesPending,
        credit left.instanceId ≤ credit back.instanceId)
  commands : after.log = ((fleet.bur.take (fleet.toStart b)).map fun node =>
    Command.startInstance node.id).reverse ++ fleet.log
  reused : 0 < fleet.toStart b → after.stoppedInstancesPending = []

section Up

variable {fleet : Fleet} {credit : String → Rat}

theorem creditedPending_credit {node : Node} (member : node ∈ fleet.creditedPending credit) :
    node.creditBalance = credit node.info.instanceId := by
  obtain ⟨original, _there, rfl⟩ :=
    List.mem_map.mp ((sortDescending_perm Node.creditBalance _).mem_iff.mp member)
  rfl

theorem infos_creditedPending :
    (infos (fleet.creditedPending credit)).Perm (infos fleet.stoppedInstancesPending) := by
  have same : infos (fleet.stoppedInstancesPending.map (readCredit credit)) =
      infos fleet.stoppedInstancesPending := by
    unfold infos
    rw [List.map_map]
    rfl
  rw [← same]
  exact (sortDescending_perm Node.creditBalance _).map Node.info

theorem scaleUpBur_picks (now : String → Int) (L : Int) {b : Int}
    (returned : (fleet.scaleUpBur now credit L b).raised = false) :
    ScaledUp credit b fleet (fleet.scaleUpBur now credit L b).fleet := by
  have started := scaleUpBur_started now credit L b fleet returned
  have pool : fleet.bur.take (fleet.toStart b) = fleet.bur.take
      (b - fleet.currBur.length - fleet.stoppedInstancesPending.length).toNat := by
    rw [List.take_eq_take_iff]
    unfold Fleet.toStart
    omega
  have draining := started.pending
  have taken := List.take_append_drop (b - fleet.currBur.length).toNat
    (fleet.creditedPending credit)
  refine ⟨⟨infos ((fleet.creditedPending credit).take (b - fleet.currBur.length).toNat),
    ?_, ?_, ?_⟩, ?_, ?_⟩
  · rw [draining]
    unfold infos
    rw [← List.map_append]
    change (infos (_ ++ (fleet.creditedPending credit).drop _)).Perm _
    rw [taken]
    exact infos_creditedPending
  · rw [started.currBur, pool]
    unfold infos Fleet.reactivated
    simp only [List.map_append, List.map_map]
    rfl
  · intro back inBack left inLeft
    rw [draining] at inLeft
    obtain ⟨node, there, rfl⟩ := List.mem_map.mp inBack
    obtain ⟨other, otherThere, rfl⟩ := List.mem_map.mp inLeft
    have ordered := pairwise_take_drop (sortDescending_credit _) _ node there other otherThere
    rw [creditedPending_credit (List.mem_of_mem_take there),
      creditedPending_credit (List.mem_of_mem_drop otherThere)] at ordered
    exact ordered
  · rw [started.log, pool]
    rfl
  · intro some_
    rw [draining]
    change (fleet.creditedPending credit).drop _ = []
    rw [List.drop_eq_nil_iff, fleet.creditedPending_length]
    unfold Fleet.toStart at some_
    omega

end Up

/-! ### Scaling down -/

/-- The instances in excess of `b` have been moved, none with more credit than
one that is left. -/
structure ScaledDown (credit : String → Rat) (b : Int) (fleet after : Fleet) : Prop where
  picked : ∃ moved, (moved ++ infos after.currBur).Perm (infos fleet.currBur) ∧
    infos after.stoppedInstancesPending = infos fleet.stoppedInstancesPending ++ moved ∧
    (moved.length : Int) = max 0 (fleet.currBur.length - b) ∧
    ∀ drained ∈ moved, ∀ left ∈ infos after.currBur,
      credit drained.instanceId ≤ credit left.instanceId

def MainPc.inScaleDown : MainPc → Bool
  | .sortStart _b => true
  | .sorting _b => true
  | .drainPick _b => true
  | _ => false

def InScaleDown (state : State) : Act → Prop
  | .main _input => state.main.inScaleDown = true
  | .short _input => True
  | .clientDone => True

def MainPc.scaleDownLeft : MainPc → Nat
  | .sortStart _b => 3
  | .sorting _b => 2
  | .drainPick _b => 1
  | _ => 0

def Fleet.credited (fleet : Fleet) (credit : String → Rat) : List (Info × Rat) :=
  fleet.currBur.map fun node => (node.info, credit node.id)

def Picking (credit : String → Rat) (target : Int) (fleet : Fleet) (state : State) : Prop :=
  match state.main with
  | .sortStart b => b = target ∧ state.fleet.currBur.map Node.known = fleet.credited credit ∧
      infos state.fleet.stoppedInstancesPending = infos fleet.stoppedInstancesPending
  | .sorting b => b = target ∧ state.fleet.sorting.map Node.known = fleet.credited credit ∧
      infos state.fleet.stoppedInstancesPending = infos fleet.stoppedInstancesPending
  | .drainPick b => b = target ∧
      (state.fleet.currBur.map Node.known).Perm (fleet.credited credit) ∧
      (state.fleet.currBur.map Node.known).Pairwise (fun a b => a.2 ≤ b.2) ∧
      infos state.fleet.stoppedInstancesPending = infos fleet.stoppedInstancesPending
  | .sleep => ScaledDown credit target fleet state.fleet
  | _ => False

section Down

variable {est : Estimator} {cfg : Config} {credit : String → Rat} {target : Int} {fleet : Fleet}
  {before after : State}

theorem infos_known (nodes : List Node) : infos nodes = (nodes.map Node.known).map Prod.fst := by
  rw [List.map_map]
  rfl

theorem infos_credited : (fleet.credited credit).map Prod.fst = infos fleet.currBur := by
  unfold Fleet.credited infos
  rw [List.map_map]
  rfl

theorem credited_credit {entry : Info × Rat} (member : entry ∈ fleet.credited credit) :
    entry.2 = credit entry.1.instanceId := by
  obtain ⟨node, _there, rfl⟩ := List.mem_map.mp member
  rfl

theorem Picking.unmoved (picking : Picking credit target fleet before)
    (unmoved : Unmoved before after) : Picking credit target fleet after := by
  have pending : infos after.fleet.stoppedInstancesPending =
      infos before.fleet.stoppedInstancesPending := by
    rw [infos_known, unmoved.pending, ← infos_known]
  have currBur : infos after.fleet.currBur = infos before.fleet.currBur := by
    rw [infos_known, unmoved.currBur, ← infos_known]
  unfold Picking at picking ⊢
  rw [unmoved.main]
  cases here : before.main <;> rw [here] at picking
  case sortStart b =>
    dsimp only at picking ⊢
    rw [unmoved.currBur, pending]
    exact picking
  case sorting b =>
    dsimp only at picking ⊢
    rw [unmoved.sorting, pending]
    exact picking
  case drainPick b =>
    dsimp only at picking ⊢
    rw [unmoved.currBur, pending]
    exact picking
  case sleep =>
    obtain ⟨moved, instances, drained, count, order⟩ := picking.picked
    refine ⟨moved, ?_, ?_, count, ?_⟩
    · rw [currBur]
      exact instances
    · rw [pending]
      exact drained
    · rw [currBur]
      exact order
  all_goals exact picking

/-- The last step takes the front of the sorted list. -/
theorem drainBur_picks {b : Int} {middle : Fleet}
    (instances : (middle.currBur.map Node.known).Perm (fleet.credited credit))
    (ordered : (middle.currBur.map Node.known).Pairwise fun a b => a.2 ≤ b.2)
    (pending : infos middle.stoppedInstancesPending = infos fleet.stoppedInstancesPending)
    (nonneg : 0 ≤ b) : ScaledDown credit b fleet (middle.drainBur b middle.currBur) := by
  have length : middle.currBur.length = fleet.currBur.length := by
    have same := instances.length_eq
    rw [List.length_map, Fleet.credited, List.length_map] at same
    exact same
  rw [drainBur_eq b middle.currBur middle rfl]
  refine ⟨infos (middle.currBur.take (middle.currBur.length - b).toNat), ?_, ?_, ?_, ?_⟩
  · have whole := instances.map Prod.fst
    rw [← infos_known, infos_credited, ← List.take_append_drop (middle.currBur.length - b).toNat
      middle.currBur] at whole
    unfold infos at whole ⊢
    rw [List.map_append] at whole
    exact whole
  · rw [← pending]
    exact List.map_append
  · rw [infos, List.length_map, List.length_take, length]
    omega
  · intro drained inMoved left inLeft
    obtain ⟨node, there, rfl⟩ := List.mem_map.mp inMoved
    obtain ⟨other, otherThere, rfl⟩ := List.mem_map.mp inLeft
    have known : ∀ node ∈ middle.currBur, node.creditBalance = credit node.info.instanceId := by
      intro node member
      exact credited_credit (instances.mem_iff.mp (List.mem_map_of_mem member))
    have order := pairwise_take_drop (List.pairwise_map.mp ordered) _ node there other otherThere
    change node.creditBalance ≤ other.creditBalance at order
    rw [known node (List.mem_of_mem_take there),
      known other (List.mem_of_mem_drop otherThere)] at order
    exact order

/-- A step of the main thread brings the scale-down forward. -/
theorem mainStep_picking (est : Estimator) (cfg : Config) (input : MainInput) (nonneg : 0 ≤ target)
    (inside : before.main.inScaleDown = true) (picking : Picking credit target fleet before) :
    ∃ after, mainStep est cfg input before = some after ∧ Picking credit target fleet after ∧
      after.main.scaleDownLeft < before.main.scaleDownLeft := by
  unfold mainStep
  unfold Picking at picking
  cases here : before.main <;> rw [here] at inside picking <;> cases inside
  case sortStart b =>
    exact ⟨_, rfl, picking, Nat.lt_add_one 2⟩
  case sorting b =>
    obtain ⟨rfl, instances, pending⟩ := picking
    have sorted := sortAscending_perm Node.creditBalance before.fleet.sorting
    refine ⟨_, rfl, ⟨rfl, ?_, ?_, pending⟩, Nat.lt_add_one 1⟩
    · rw [← instances]
      exact sorted.map Node.known
    · exact List.pairwise_map.mpr (sortAscending_credit before.fleet.sorting)
  case drainPick b =>
    obtain ⟨rfl, instances, ordered, pending⟩ := picking
    exact ⟨_, rfl, drainBur_picks instances ordered pending nonneg, Nat.zero_lt_one⟩

theorem reach_picking {state : State} (nonneg : 0 ≤ target)
    (begun : Picking credit target fleet before)
    (reach : Reach (step est cfg) InScaleDown before state) :
    Picking credit target fleet state := by
  refine reach_unmoved reach (Picking credit target fleet) begun ?_ ?_
  · intro first last input taken allowed picking
    obtain ⟨next, same, kept, _less⟩ := mainStep_picking est cfg input nonneg allowed picking
    rw [Option.some.inj (taken.symm.trans same)]
    exact kept
  · intro first last unmoved picking
    exact picking.unmoved unmoved

theorem Picking.ended (picking : Picking credit target fleet before)
    (outside : before.main.inScaleDown = false) :
    before.main = .sleep ∧ ScaledDown credit target fleet before.fleet := by
  unfold Picking at picking
  cases here : before.main <;> rw [here] at picking outside <;> cases outside
  case sleep => exact ⟨rfl, picking⟩
  all_goals exact absurd picking not_false

end Down

/-! ### The change of the number of instances -/

/-- From the point where the burstable instances are scaled to `b`: a scale-up is
one step, a scale-down ends after three more steps of the main thread. -/
theorem scaling_picks_by_credit (est : Estimator) (cfg : Config) {input : MainInput}
    {before after : State} {b : Int} (nonneg : 0 ≤ b) (here : before.main = .scaleBur b)
    (keyed : ∀ node ∈ before.fleet.bur, (before.fleet.burCost node.id).isSome = true)
    (taken : step est cfg before (.main input) = some after) :
    (before.fleet.currBur.length < b →
      after.main ≠ .raised ∧ ScaledUp input.credit b before.fleet after.fleet) ∧
    (before.fleet.currBur.length = b → after.main = .sleep ∧ after.fleet = before.fleet) ∧
    (b < before.fleet.currBur.length →
      ∀ state, Reach (step est cfg) InScaleDown after state →
        (state.main.inScaleDown = true → ∀ next : MainInput, ∃ later,
          mainStep est cfg next state = some later ∧
            later.main.scaleDownLeft < state.main.scaleDownLeft) ∧
        (state.main.inScaleDown = false →
          state.main = .sleep ∧ ScaledDown input.credit b before.fleet state.fleet)) := by
  have stepped : after = scaleBur cfg input before b := by
    change mainStep est cfg input before = some after at taken
    unfold mainStep at taken
    rw [here] at taken
    exact (Option.some.inj taken).symm
  unfold scaleBur at stepped
  refine ⟨?_, ?_, ?_⟩
  · intro more
    have returned : (before.fleet.scaleUpBur input.now input.credit cfg.L b).raised = false := by
      apply scaleUpBur_found
      intro id member
      obtain ⟨node, there, rfl⟩ := List.mem_map.mp member
      exact keyed node there
    rw [if_pos more] at stepped
    dsimp only at stepped
    rw [returned] at stepped
    rw [stepped]
    exact ⟨nofun, scaleUpBur_picks input.now cfg.L returned⟩
  · intro same
    rw [if_neg (by omega), if_neg (by omega)] at stepped
    rw [stepped]
    exact ⟨rfl, rfl⟩
  · intro fewer state reach
    rw [if_neg (by omega), if_pos fewer] at stepped
    have begun : Picking input.credit b before.fleet after := by
      rw [stepped]
      refine ⟨rfl, ?_, rfl⟩
      exact List.map_map
    have picking := reach_picking nonneg begun reach
    constructor
    · intro inside next
      obtain ⟨later, made, _kept, less⟩ := mainStep_picking est cfg next nonneg inside picking
      exact ⟨later, made, less⟩
    · exact picking.ended

/-- In every run the instances of the pool have their ledger. -/
theorem reach_bur_keyed {est : Estimator} {cfg : Config} {allowed : State → Act → Prop}
    {base : UpstreamBlock} {created : List Info} {input : StartInput} {start state : State}
    (started : startUp cfg base created input = some start)
    (reach : Reach (step est cfg) allowed start state) :
    ∀ node ∈ state.fleet.bur, (state.fleet.burCost node.id).isSome = true := by
  intro node member
  refine (reach_keyed started reach).bur node ?_ ((reach_typed started reach).bur node member)
  simp only [Fleet.nodes, List.mem_append]
  tauto

def unevenMain : Act :=
  .main ⟨fun _id => [⟨"12:00", 50⟩], fun id => if id = "i-02" then 5 else 3, fun _id => 1,
    some 101, 1⟩

theorem scaling_picks_by_credit_sample :
    ∃ before after state, sampleRun sampleConfig (fun _ _ => True) (List.replicate 13 sampleMain) =
        some before ∧
      step (policies sampleConfig) sampleConfig before unevenMain = some after ∧
      Reach (step (policies sampleConfig) sampleConfig) InScaleDown after state ∧
      state.fleet.stoppedInstancesPending.map Node.id = ["i-03"] ∧
      ScaledDown (fun id => if id = "i-02" then 5 else 3) 1 before.fleet state.fleet := by
  have seen : ((sampleRun sampleConfig (fun _ _ => True) (List.replicate 13 sampleMain)).bind
      fun before => (step (policies sampleConfig) sampleConfig before unevenMain).bind fun after =>
        (run (guarded (step (policies sampleConfig) sampleConfig)
          fun state _action => state.main.inScaleDown = true) after
            (List.replicate 3 unevenMain)).map fun state =>
              (before.main, before.fleet.currBur.length, state.main.inScaleDown,
                state.fleet.stoppedInstancesPending.map Node.id)) =
      some (.scaleBur 1, 2, false, ["i-03"]) := by
    decide +kernel
  obtain ⟨before, ran, next⟩ := Option.bind_eq_some_iff.mp seen
  obtain ⟨after, taken, rest⟩ := Option.bind_eq_some_iff.mp next
  obtain ⟨state, steps, same⟩ := Option.map_eq_some_iff.mp rest
  simp only [Prod.mk.injEq] at same
  obtain ⟨here, two, outside, moved⟩ := same
  have reach : Reach (step (policies sampleConfig) sampleConfig) InScaleDown after state := by
    refine reach_of_guarded_actions steps ?_
    intro action member state inside
    rw [List.eq_of_mem_replicate member]
    exact inside
  obtain ⟨start, started, reached⟩ := sampleRun_reach ran
  have picks := scaling_picks_by_credit (policies sampleConfig) sampleConfig
    (by decide : (0 : Int) ≤ 1) here (reach_bur_keyed started reached) taken
  have fewer : (1 : Int) < before.fleet.currBur.length := by
    rw [two]
    decide
  exact ⟨before, after, state, ran, taken, reach, moved,
    ((picks.2.2 fewer state reach).2 outside).2⟩

end AutoBurst.Controller
