/-
One pass of the loop that retires draining instances, in every order of the
threads' steps, and the instances that have no reported credit.
-/

import AutoBurst.Controller.Conservation

namespace AutoBurst.Controller

open Runs

/-! ### The most recent datapoint -/

/-- The last datapoint of those with the greatest timestamp. -/
def latest : List Datapoint → Option Datapoint
  | [] => none
  | first :: rest =>
      match latest rest with
      | none => some first
      | some later => if first.timestamp ≤ later.timestamp then some later else some first

section Latest

private abbrev noLater (a b : Datapoint) : Prop := a.timestamp ≤ b.timestamp

private instance : Std.Total noLater := ⟨fun a b => String.le_total a.timestamp b.timestamp⟩

private instance : IsTrans Datapoint noLater := ⟨fun _a _b _c => String.le_trans⟩

private theorem getLast_orderedInsert (point : Datapoint) {sorted : List Datapoint}
    (ordered : sorted.Pairwise noLater) :
    (sorted.orderedInsert noLater point).getLast? =
      match sorted.getLast? with
      | none => some point
      | some later => if point.timestamp ≤ later.timestamp then some later else some point := by
  induction sorted with
  | nil => rfl
  | cons head rest ih =>
      obtain ⟨first, restOrdered⟩ := List.pairwise_cons.mp ordered
      rw [List.orderedInsert_cons]
      cases end_ : rest.getLast? with
      | none =>
          rw [List.getLast?_eq_none_iff] at end_
          subst end_
          by_cases before : point.timestamp ≤ head.timestamp
          · simp [before]
          · simp [before]
      | some last =>
          have later := first last (List.mem_of_getLast? end_)
          have whole : (head :: rest).getLast? = some last := by
            rw [List.getLast?_cons, end_]
            rfl
          by_cases before : point.timestamp ≤ head.timestamp
          · rw [if_pos before, List.getLast?_cons, whole]
            simp [String.le_trans before later]
          · rw [if_neg before, List.getLast?_cons, ih restOrdered, end_, whole]
            dsimp only
            split <;> rfl

theorem getMetricStats_latest (datapoints : List Datapoint) :
    getMetricStats datapoints =
      match latest datapoints with
      | some point => point.value
      | none => -1 := by
  have last : (datapoints.insertionSort noLater).getLast? = latest datapoints := by
    induction datapoints with
    | nil => rfl
    | cons point rest ih =>
        rw [List.insertionSort_cons, getLast_orderedInsert point (List.pairwise_insertionSort _ _),
          ih]
        rfl
  have sorted : (datapoints.insertionSort fun a b => a.timestamp ≤ b.timestamp).getLast? =
      latest datapoints := last
  unfold getMetricStats latestDatapoint
  rw [sorted]
  cases latest datapoints with
  | none => rfl
  | some point => rfl

end Latest

/-! ### A pass -/

def readsLow (datapoints : String → List Datapoint) (info : Info) : Bool :=
  decide (getMetricStats (datapoints info.instanceId) < 1 / 10)

/-- The most recent balance was reported and is below the threshold. -/
def drained (datapoints : String → List Datapoint) (info : Info) : Bool :=
  (latest (datapoints info.instanceId)).any fun point => decide (point.value < 1 / 10)

def MainPc.inDrain : MainPc → Bool
  | .drainCheck _j _left => true
  | .drainMove _j _left => true
  | _ => false

/-- The steps of a pass: the main thread makes those of the loop and is told
these datapoints, the other threads make any. -/
def InPass (datapoints : String → List Datapoint) (state : State) : Act → Prop
  | .main input => state.main.inDrain = true ∧ input.datapoints = datapoints
  | .short _input => True
  | .clientDone => True

def DrainedOnly (datapoints : String → List Datapoint) (start state : State) : Prop :=
  state.fleet.stoppedInstances.map Node.info = start.fleet.stoppedInstances.map Node.info ++
      (start.fleet.stoppedInstancesPending.map Node.info).filter (drained datapoints) ∧
    state.fleet.stoppedInstancesPending.map Node.info =
      (start.fleet.stoppedInstancesPending.map Node.info).filter fun info =>
        !drained datapoints info

structure Sifted (low : Info → Bool) (start state : State) (seen rest : List Info) : Prop where
  whole : start.fleet.stoppedInstancesPending.map Node.info = seen ++ rest
  pending : state.fleet.stoppedInstancesPending.map Node.info =
    (seen.filter fun info => !low info) ++ rest
  stopped : state.fleet.stoppedInstances.map Node.info =
    start.fleet.stoppedInstances.map Node.info ++ seen.filter low

/-- The index `j` is the number of instances that have been left in the list. -/
def Passing (low : Info → Bool) (start state : State) : Prop :=
  match state.main with
  | .drainCheck j left => ∃ seen rest, Sifted low start state seen rest ∧
      j = (seen.filter fun info => !low info).length ∧ left = rest.length
  | .drainMove j left => ∃ seen first rest, Sifted low start state seen (first :: rest) ∧
      low first = true ∧ j = (seen.filter fun info => !low info).length ∧ left = rest.length
  | .stopIssue i lenStopped => (∃ seen, Sifted low start state seen []) ∧ i = 0 ∧
      lenStopped = state.fleet.stoppedInstances.length
  | _ => False

def MainPc.drainLeft : MainPc → Nat
  | .drainCheck _j left => 2 * left + 1
  | .drainMove _j left => 2 * left + 2
  | _ => 0

section Pass

variable {est : Estimator} {cfg : Config} {low : Info → Bool} {start before after : State}
  {seen rest : List Info}

theorem Sifted.unmoved (sifted : Sifted low start before seen rest)
    (unmoved : Unmoved before after) : Sifted low start after seen rest := by
  have infos : ∀ nodes : List Node, nodes.map Node.info = (nodes.map Node.known).map Prod.fst := by
    intro nodes
    rw [List.map_map]
    rfl
  refine ⟨sifted.whole, ?_, ?_⟩
  · rw [infos, unmoved.pending, ← infos]
    exact sifted.pending
  · rw [unmoved.stopped]
    exact sifted.stopped

theorem Passing.unmoved (passing : Passing low start before) (unmoved : Unmoved before after) :
    Passing low start after := by
  unfold Passing at passing ⊢
  rw [unmoved.main]
  cases here : before.main <;> rw [here] at passing
  case drainCheck j left =>
    obtain ⟨seen, rest, sifted, index, count⟩ := passing
    exact ⟨seen, rest, sifted.unmoved unmoved, index, count⟩
  case drainMove j left =>
    obtain ⟨seen, first, rest, sifted, isLow, index, count⟩ := passing
    exact ⟨seen, first, rest, sifted.unmoved unmoved, isLow, index, count⟩
  case stopIssue i lenStopped =>
    obtain ⟨⟨seen, sifted⟩, index, count⟩ := passing
    refine ⟨⟨seen, sifted.unmoved unmoved⟩, index, ?_⟩
    rw [unmoved.stopped]
    exact count
  all_goals exact passing

theorem Passing.ended (passing : Passing low start before) (outside : before.main.inDrain = false) :
    before.main = .stopIssue 0 before.fleet.stoppedInstances.length ∧
      ∃ seen, Sifted low start before seen [] := by
  unfold Passing at passing
  cases here : before.main <;> rw [here] at passing outside <;> cases outside
  case stopIssue i lenStopped =>
    obtain ⟨sifted, rfl, rfl⟩ := passing
    exact ⟨rfl, sifted⟩
  all_goals exact absurd passing not_false

/-- The node under the index is the first that has not been looked at. -/
theorem Sifted.current {first : Info} (sifted : Sifted low start before seen (first :: rest)) :
    ∃ node, before.fleet.stoppedInstancesPending[(seen.filter fun info => !low info).length]? =
        some node ∧ node.info = first := by
  have found : (before.fleet.stoppedInstancesPending.map Node.info)[
      (seen.filter fun info => !low info).length]? = some first := by
    rw [sifted.pending, List.getElem?_append_right le_rfl, Nat.sub_self]
    rfl
  rw [List.getElem?_map] at found
  exact Option.map_eq_some_iff.mp found

theorem Sifted.keep {first : Info} (sifted : Sifted low start before seen (first :: rest))
    (high : low first = false) : Sifted low start before (seen ++ [first]) rest := by
  refine ⟨?_, ?_, ?_⟩
  · rw [sifted.whole, List.append_cons]
  · rw [sifted.pending, List.append_cons, List.filter_append]
    simp [high]
  · rw [sifted.stopped, List.filter_append]
    simp [high]

theorem Sifted.retire {first : Info} {node : Node}
    (sifted : Sifted low start before seen (first :: rest)) (isLow : low first = true)
    (same : node.info = first)
    (pending : after.fleet.stoppedInstancesPending =
      before.fleet.stoppedInstancesPending.eraseIdx
        (seen.filter fun info => !low info).length)
    (stopped : after.fleet.stoppedInstances = before.fleet.stoppedInstances ++ [node]) :
    Sifted low start after (seen ++ [first]) rest := by
  refine ⟨?_, ?_, ?_⟩
  · rw [sifted.whole, List.append_cons]
  · rw [pending, ← List.eraseIdx_map, sifted.pending, List.eraseIdx_append_of_length_le le_rfl,
      Nat.sub_self, List.eraseIdx_cons_zero, List.filter_append]
    simp [isLow]
  · rw [stopped, List.map_append, sifted.stopped, List.filter_append, List.append_assoc]
    simp [isLow, same]

end Pass

/-! ### The steps of a pass -/

section Steps

variable {est : Estimator} {cfg : Config} {datapoints : String → List Datapoint}
  {start before after : State}

private theorem drainCheck_passing {input : MainInput} {j left : Nat}
    (told : input.datapoints = datapoints) (here : before.main = .drainCheck j left)
    (passing : Passing (readsLow datapoints) start before) :
    Passing (readsLow datapoints) start (drainCheck input before j left) ∧
      (drainCheck input before j left).main.drainLeft < 2 * left + 1 := by
  unfold Passing at passing
  rw [here] at passing
  obtain ⟨seen, rest, sifted, rfl, rfl⟩ := passing
  cases rest with
  | nil => exact ⟨⟨⟨seen, sifted.whole, sifted.pending, sifted.stopped⟩, rfl, rfl⟩, Nat.zero_lt_one⟩
  | cons first rest =>
      obtain ⟨node, found, same⟩ := sifted.current
      have test : readsLow datapoints first =
          decide (getMetricStats (input.datapoints node.id) < 1 / 10) := by
        rw [told, ← same]
        rfl
      rw [List.length_cons]
      unfold drainCheck
      rw [found]
      dsimp only
      split
      · rename_i small
        have isLow : readsLow datapoints first = true := by
          rw [test]
          exact decide_eq_true small
        refine ⟨⟨seen, first, rest, ?_, isLow, rfl, rfl⟩, ?_⟩
        · exact ⟨sifted.whole, sifted.pending, sifted.stopped⟩
        · change 2 * rest.length + 2 < 2 * (rest.length + 1) + 1
          omega
      · rename_i large
        have high : readsLow datapoints first = false := by
          rw [test]
          exact decide_eq_false large
        have kept := sifted.keep high
        refine ⟨⟨seen ++ [first], rest, ⟨kept.whole, kept.pending, kept.stopped⟩, ?_, rfl⟩, ?_⟩
        · rw [List.filter_append]
          simp [high]
        · change 2 * rest.length + 1 < 2 * (rest.length + 1) + 1
          omega

private theorem drainMove_passing {j left : Nat} (here : before.main = .drainMove j left)
    (passing : Passing (readsLow datapoints) start before) :
    Passing (readsLow datapoints) start (drainMove before j left) ∧
      (drainMove before j left).main.drainLeft < 2 * left + 2 := by
  unfold Passing at passing
  rw [here] at passing
  obtain ⟨seen, first, rest, sifted, isLow, rfl, rfl⟩ := passing
  obtain ⟨node, found, same⟩ := sifted.current
  unfold drainMove Fleet.retire
  rw [found, Option.map_some]
  refine ⟨⟨seen ++ [first], rest, sifted.retire isLow same rfl rfl, ?_, rfl⟩, ?_⟩
  · rw [List.filter_append]
    simp [isLow]
  · change 2 * rest.length + 1 < 2 * rest.length + 2
    omega

/-- A step of the main thread inside the loop goes on with the pass. -/
theorem mainStep_passing (est : Estimator) (cfg : Config) {input : MainInput}
    (told : input.datapoints = datapoints) (inside : before.main.inDrain = true)
    (passing : Passing (readsLow datapoints) start before) :
    ∃ after, mainStep est cfg input before = some after ∧
      Passing (readsLow datapoints) start after ∧
      after.main.drainLeft < before.main.drainLeft := by
  unfold mainStep
  cases here : before.main <;> rw [here] at inside <;> cases inside
  case drainCheck j left => exact ⟨_, rfl, drainCheck_passing told here passing⟩
  case drainMove j left => exact ⟨_, rfl, drainMove_passing here passing⟩

theorem reach_passing
    (begun : start.main = .drainCheck 0 start.fleet.stoppedInstancesPending.length) {state : State}
    (reach : Reach (step est cfg) (InPass datapoints) start state) :
    Passing (readsLow datapoints) start state := by
  refine reach_unmoved reach (Passing (readsLow datapoints) start) ?_ ?_ ?_
  · unfold Passing
    rw [begun]
    refine ⟨[], start.fleet.stoppedInstancesPending.map Node.info, ⟨rfl, rfl, ?_⟩, rfl, ?_⟩
    · exact (List.append_nil _).symm
    · rw [List.length_map]
  · intro before after input taken allowed passing
    obtain ⟨next, same, kept, _less⟩ := mainStep_passing est cfg allowed.2 allowed.1 passing
    rw [Option.some.inj (taken.symm.trans same)]
    exact kept
  · intro before after unmoved passing
    exact passing.unmoved unmoved

end Steps

/-! ### Reported balances -/

theorem latest_eq_none {points : List Datapoint} : latest points = none ↔ points = [] := by
  cases points with
  | nil => exact ⟨fun _none => rfl, fun _nil => rfl⟩
  | cons first rest =>
      refine ⟨fun none_ => ?_, nofun⟩
      unfold latest at none_
      split at none_
      · cases none_
      · split at none_ <;> cases none_

section Reported

variable {datapoints : String → List Datapoint}

/-- Without a datapoint the number read is below the threshold. -/
theorem readsLow_eq_drained {info : Info} :
    readsLow datapoints info = drained datapoints info ↔ datapoints info.instanceId ≠ [] := by
  unfold readsLow drained
  rw [getMetricStats_latest, ne_eq, ← latest_eq_none]
  cases latest (datapoints info.instanceId) with
  | none =>
      have sentinel : decide ((-1 : Rat) < 1 / 10) = true := by decide +kernel
      refine ⟨fun equal => ?_, fun reported => absurd rfl reported⟩
      change decide ((-1 : Rat) < 1 / 10) = false at equal
      rw [sentinel] at equal
      cases equal
  | some point => exact ⟨fun _equal => nofun, fun _reported => rfl⟩

/-- Two tests sort a list in the same way only if they agree on it. -/
theorem filter_eq_filter_iff {α : Type*} {items : List α} {one other : α → Bool} :
    items.filter one = items.filter other ↔ ∀ item ∈ items, one item = other item := by
  refine ⟨fun equal item member => ?_, fun agree => List.filter_congr agree⟩
  have same : item ∈ items.filter one ↔ item ∈ items.filter other := by rw [equal]
  rw [List.mem_filter, List.mem_filter] at same
  rw [Bool.eq_iff_iff]
  exact ⟨fun yes => (same.mp ⟨member, yes⟩).2, fun yes => (same.mpr ⟨member, yes⟩).2⟩

theorem Sifted.drainedOnly_iff {start state : State} {seen : List Info}
    (sifted : Sifted (readsLow datapoints) start state seen []) :
    DrainedOnly datapoints start state ↔
      ∀ node ∈ start.fleet.stoppedInstancesPending, datapoints node.id ≠ [] := by
  have whole := sifted.whole
  rw [List.append_nil] at whole
  have agree : (∀ node ∈ start.fleet.stoppedInstancesPending, datapoints node.id ≠ []) ↔
      ∀ info ∈ seen, readsLow datapoints info = drained datapoints info := by
    simp only [readsLow_eq_drained, ← whole, List.forall_mem_map]
    rfl
  unfold DrainedOnly
  rw [sifted.stopped, sifted.pending, whole, List.append_nil, agree, List.append_cancel_left_eq,
    filter_eq_filter_iff]
  refine ⟨fun both => both.1, fun all => ⟨all, List.filter_congr ?_⟩⟩
  intro info member
  rw [all info member]

end Reported

/-- The pass never gets stuck before its last step, and it moves exactly the
drained instances if and only if every instance has reported a balance. -/
theorem drained_only_iff (est : Estimator) (cfg : Config) (datapoints : String → List Datapoint)
    {start state : State}
    (begun : start.main = .drainCheck 0 start.fleet.stoppedInstancesPending.length)
    (reach : Reach (step est cfg) (InPass datapoints) start state) :
    (state.main.inDrain = true → ∀ input, input.datapoints = datapoints →
      ∃ after, mainStep est cfg input state = some after ∧
        after.main.drainLeft < state.main.drainLeft) ∧
    (state.main.inDrain = false →
      state.main = .stopIssue 0 state.fleet.stoppedInstances.length ∧
      (DrainedOnly datapoints start state ↔
        ∀ node ∈ start.fleet.stoppedInstancesPending, datapoints node.id ≠ [])) := by
  have passing := reach_passing begun reach
  constructor
  · intro inside input told
    obtain ⟨after, taken, _kept, less⟩ := mainStep_passing est cfg told inside passing
    exact ⟨after, taken, less⟩
  · intro outside
    obtain ⟨ended, seen, sifted⟩ := passing.ended outside
    exact ⟨ended, sifted.drainedOnly_iff⟩

/-! ### An instance that has not reported -/

def samplePass (action : Act) (count : Nat) : Option (State × State) :=
  (sampleRun sampleConfig (fun _ _ => True) (List.replicate 19 sampleMain)).bind fun start =>
    (run (guarded (step (policies sampleConfig) sampleConfig)
      fun state _action => state.main.inDrain = true) start
        (List.replicate count action)).map fun state => (start, state)

structure SamplePassed (datapoints : String → List Datapoint) (start state : State) : Prop where
  ran : sampleRun sampleConfig (fun _ _ => True) (List.replicate 19 sampleMain) = some start
  begun : start.main = .drainCheck 0 start.fleet.stoppedInstancesPending.length
  draining : start.fleet.stoppedInstancesPending.map Node.id = ["i-02"]
  reach : Reach (step (policies sampleConfig) sampleConfig) (InPass datapoints) start state
  ended : state.main.inDrain = false

private theorem samplePass_passed {datapoints : String → List Datapoint} (action : Act)
    (count : Nat) (stopped : List String)
    (told : ∀ state : State, state.main.inDrain = true → InPass datapoints state action)
    (seen : (samplePass action count).map (fun states => (states.1.main,
      states.1.fleet.stoppedInstancesPending.map Node.id, states.2.main.inDrain,
        states.2.fleet.stoppedInstances.map Node.id)) =
      some (.drainCheck 0 1, ["i-02"], false, stopped)) :
    ∃ start state, SamplePassed datapoints start state ∧
      state.fleet.stoppedInstances.map Node.id = stopped := by
  obtain ⟨states, passed, same⟩ := Option.map_eq_some_iff.mp seen
  obtain ⟨start, ran, next⟩ := Option.bind_eq_some_iff.mp passed
  obtain ⟨state, steps, rfl⟩ := Option.map_eq_some_iff.mp next
  simp only [Prod.mk.injEq] at same
  obtain ⟨main, draining, ended, moved⟩ := same
  have one : start.fleet.stoppedInstancesPending.length = 1 := by
    have length := congrArg List.length draining
    rw [List.length_map] at length
    exact length
  refine ⟨start, state, ⟨ran, by rw [main, one], draining, ?_, ended⟩, moved⟩
  refine reach_of_guarded_actions steps ?_
  intro other member state inside
  rw [List.eq_of_mem_replicate member]
  exact told state inside

def silentMain : Act := .main ⟨fun _id => [], fun _id => 0, fun _id => 1, some 101, 1⟩

/-- The draining instance is retired though it has not reported a balance. -/
theorem unreported_is_retired :
    ∃ start state, SamplePassed (fun _id => []) start state ∧
      state.fleet.stoppedInstances.map Node.id = ["i-02"] ∧
      ¬DrainedOnly (fun _id => []) start state := by
  obtain ⟨start, state, passed, moved⟩ := samplePass_passed silentMain 3 ["i-02"]
    (fun _state inside => ⟨inside, rfl⟩) (by decide +kernel)
  refine ⟨start, state, passed, moved, ?_⟩
  obtain ⟨_ended, seen, sifted⟩ := (reach_passing passed.begun passed.reach).ended passed.ended
  rw [sifted.drainedOnly_iff]
  intro reported
  have member : "i-02" ∈ start.fleet.stoppedInstancesPending.map Node.id := by
    rw [passed.draining]
    exact List.mem_cons_self
  obtain ⟨node, there, _same⟩ := List.mem_map.mp member
  exact reported node there rfl

/-- The sample's steps report a balance of 50, so the instance stays. -/
theorem drained_only_iff_sample :
    ∃ start state, SamplePassed (fun _id => [⟨"12:00", 50⟩]) start state ∧
      state.fleet.stoppedInstances.map Node.id = [] ∧
      DrainedOnly (fun _id => [⟨"12:00", 50⟩]) start state := by
  obtain ⟨start, state, passed, moved⟩ := samplePass_passed sampleMain 2 []
    (fun _state inside => ⟨inside, rfl⟩) (by decide +kernel)
  refine ⟨start, state, passed, moved, ?_⟩
  have both := drained_only_iff (policies sampleConfig) sampleConfig (fun _id => [⟨"12:00", 50⟩])
    passed.begun passed.reach
  exact (both.2 passed.ended).2.mpr fun _node _member => List.cons_ne_nil _ _

end AutoBurst.Controller
