/-
One iteration of the main loop from the call of `resource_estimator` on, in
every order of the two threads' steps: the lookup in the filled table succeeds,
no step raises, and the two scaling stages end with the numbers asked for.
-/

import AutoBurst.Controller.Accumulator
import AutoBurst.Controller.Stock
import AutoBurst.Controller.TableFile

namespace AutoBurst.Controller

open Runs

/-! ### What the loops leave -/

section Lengths

variable (now : String → Int)

theorem startOnD_length (od : Int) (pool : List Node) (fleet : Fleet)
    (returned : (Fleet.startOnD now od pool fleet).raised = false) :
    ((Fleet.startOnD now od pool fleet).fleet.currOnD.length : Int) =
        max (fleet.currOnD.length : Int) (min od (fleet.currOnD.length + pool.length)) ∧
      (Fleet.startOnD now od pool fleet).fleet.stoppedInstances = fleet.stoppedInstances := by
  induction pool generalizing fleet with
  | nil =>
      refine ⟨?_, rfl⟩
      change (fleet.currOnD.length : Int) = _
      rw [List.length_nil]
      omega
  | cons node pool ih =>
      unfold Fleet.startOnD at returned ⊢
      split at returned
      · rename_i more
        rw [if_pos more]
        split at returned
        · cases returned
        · rename_i ondCost opened
          dsimp only
          obtain ⟨length, stopped⟩ := ih _ returned
          refine ⟨?_, stopped⟩
          rw [length, List.length_append, List.length_singleton, List.length_cons]
          omega
      · rename_i enough
        rw [if_neg enough]
        refine ⟨?_, rfl⟩
        change (fleet.currOnD.length : Int) = _
        omega

structure StartedBur (L : Int) (count : Nat) (pool : List Node) (fleet after : Fleet) : Prop where
  currBur : after.currBur = fleet.currBur ++ (pool.take count).map fun node =>
    { node with weight := L }
  bur : after.bur = pool.drop count
  log : after.log = ((pool.take count).map fun node => Command.startInstance node.id).reverse ++
    fleet.log
  pending : after.stoppedInstancesPending = fleet.stoppedInstancesPending
  currOnD : after.currOnD = fleet.currOnD

theorem startBur_started (L b : Int) (pool : List Node) (fleet : Fleet)
    (whole : fleet.bur = pool)
    (returned : (Fleet.startBur now L b pool fleet).raised = false) :
    StartedBur L (b - fleet.currBur.length).toNat pool fleet
      (Fleet.startBur now L b pool fleet).fleet := by
  induction pool generalizing fleet with
  | nil =>
      refine ⟨?_, ?_, ?_, rfl, rfl⟩
      · rw [List.take_nil]
        exact (List.append_nil _).symm
      · rw [List.drop_nil]
        exact whole
      · rw [List.take_nil]
        rfl
  | cons node pool ih =>
      unfold Fleet.startBur at returned ⊢
      split at returned
      · rename_i more
        rw [if_pos more]
        split at returned
        · cases returned
        · rename_i burCost opened
          have later := ih _ rfl returned
          have count : (b - fleet.currBur.length).toNat =
              (b - (fleet.currBur ++ [{ node with weight := L }]).length).toNat + 1 := by
            rw [List.length_append, List.length_singleton]
            omega
          rw [count]
          refine ⟨?_, ?_, ?_, later.pending, later.currOnD⟩
          · rw [later.currBur, List.take_succ_cons, List.map_cons]
            exact List.append_assoc _ _ _
          · rw [later.bur, List.drop_succ_cons]
          · rw [later.log, List.take_succ_cons, List.map_cons, List.reverse_cons,
              List.append_assoc]
            rfl
      · rename_i enough
        have none_ : (b - fleet.currBur.length).toNat = 0 := by omega
        rw [if_neg enough, none_]
        exact ⟨(List.append_nil _).symm, whole, rfl, rfl, rfl⟩

theorem reactivate_eq (L b : Int) (draining : List Node) (fleet : Fleet)
    (whole : fleet.stoppedInstancesPending = draining) :
    Fleet.reactivate L b draining fleet =
      { fleet with
        stoppedInstancesPending := draining.drop (b - fleet.currBur.length).toNat
        currBur := fleet.currBur ++
          (draining.take (b - fleet.currBur.length).toNat).map fun node =>
            { node with weight := L } } := by
  induction draining generalizing fleet with
  | nil =>
      unfold Fleet.reactivate
      rw [List.drop_nil, List.take_nil, List.map_nil, List.append_nil, ← whole]
  | cons node rest ih =>
      unfold Fleet.reactivate
      split
      · have count : (b - fleet.currBur.length).toNat =
            (b - (fleet.currBur ++ [{ node with weight := L }]).length).toNat + 1 := by
          rw [List.length_append, List.length_singleton]
          omega
        rw [ih _ rfl, count, List.drop_succ_cons, List.take_succ_cons, List.map_cons,
          List.append_assoc]
        rfl
      · rename_i enough
        have none_ : (b - fleet.currBur.length).toNat = 0 := by omega
        rw [none_, List.drop_zero, List.take_zero, List.map_nil, List.append_nil, ← whole]

def Fleet.creditedPending (fleet : Fleet) (credit : String → Rat) : List Node :=
  sortDescending Node.creditBalance (fleet.stoppedInstancesPending.map (readCredit credit))

theorem Fleet.creditedPending_length (fleet : Fleet) (credit : String → Rat) :
    (fleet.creditedPending credit).length = fleet.stoppedInstancesPending.length := by
  unfold Fleet.creditedPending
  rw [(sortDescending_perm Node.creditBalance _).length_eq, List.length_map]

def Fleet.reactivated (fleet : Fleet) (credit : String → Rat) (L b : Int) : Fleet :=
  { fleet with
    stoppedInstancesPending := (fleet.creditedPending credit).drop (b - fleet.currBur.length).toNat
    currBur := fleet.currBur ++
      ((fleet.creditedPending credit).take (b - fleet.currBur.length).toNat).map fun node =>
        { node with weight := L } }

theorem scaleUpBur_eq (credit : String → Rat) (L b : Int) (fleet : Fleet) :
    fleet.scaleUpBur now credit L b =
      Fleet.startBur now L b fleet.bur (fleet.reactivated credit L b) := by
  have reactivated := reactivate_eq L b (fleet.creditedPending credit)
    { fleet with stoppedInstancesPending := fleet.creditedPending credit } rfl
  exact congrArg (fun fleet : Fleet => Fleet.startBur now L b fleet.bur fleet) reactivated

/-- Pool nodes are started for what the draining nodes leave to be done. -/
theorem scaleUpBur_started (credit : String → Rat) (L b : Int) (fleet : Fleet)
    (returned : (fleet.scaleUpBur now credit L b).raised = false) :
    StartedBur L (b - fleet.currBur.length - fleet.stoppedInstancesPending.length).toNat fleet.bur
      (fleet.reactivated credit L b) (fleet.scaleUpBur now credit L b).fleet := by
  rw [scaleUpBur_eq] at returned ⊢
  have started := startBur_started now L b fleet.bur (fleet.reactivated credit L b) rfl returned
  have count : (b - (fleet.reactivated credit L b).currBur.length).toNat =
      (b - fleet.currBur.length - fleet.stoppedInstancesPending.length).toNat := by
    unfold Fleet.reactivated
    rw [List.length_append, List.length_map, List.length_take, fleet.creditedPending_length]
    omega
  rw [count] at started
  exact started

/-- Draining nodes and pool nodes together, as far as they go. -/
theorem scaleUpBur_length (credit : String → Rat) (L : Int) {b : Int} (fleet : Fleet)
    (more : b > fleet.currBur.length)
    (returned : (fleet.scaleUpBur now credit L b).raised = false) :
    ((fleet.scaleUpBur now credit L b).fleet.currBur.length : Int) =
        min b (fleet.bur.length + fleet.currBur.length + fleet.stoppedInstancesPending.length) ∧
      (fleet.scaleUpBur now credit L b).fleet.currOnD = fleet.currOnD := by
  have started := scaleUpBur_started now credit L b fleet returned
  refine ⟨?_, started.currOnD⟩
  rw [started.currBur, Fleet.reactivated, List.length_append, List.length_append, List.length_map,
    List.length_map, List.length_take, List.length_take, fleet.creditedPending_length]
  omega

theorem stopOnD_length {od : Int} (nonneg : 0 ≤ od) (running : List Node) (fleet : Fleet)
    (whole : fleet.currOnD = running) (within : od ≤ running.length)
    (kinds : ∀ node ∈ running, node.burstable = false)
    (stopped : ∀ node ∈ fleet.stoppedInstances, node.burstable = false) :
    (Fleet.stopOnD od running fleet).raised = false ∧
      ((Fleet.stopOnD od running fleet).fleet.currOnD.length : Int) = od ∧
      ∀ node ∈ (Fleet.stopOnD od running fleet).fleet.stoppedInstances,
        node.burstable = false := by
  induction running generalizing fleet with
  | nil =>
      rw [List.length_nil] at within
      refine ⟨decide_eq_false (not_lt.mpr nonneg), ?_, stopped⟩
      change (fleet.currOnD.length : Int) = od
      rw [whole, List.length_nil]
      omega
  | cons node rest ih =>
      obtain ⟨here, later⟩ := List.forall_mem_cons.mp kinds
      unfold Fleet.stopOnD
      split
      · rename_i above
        rw [List.length_cons] at above
        exact ih _ rfl (by omega) later (forall_snoc stopped here)
      · rename_i reached
        refine ⟨rfl, ?_, stopped⟩
        rw [whole]
        omega

theorem drainBur_eq (b : Int) (running : List Node) (fleet : Fleet)
    (whole : fleet.currBur = running) :
    Fleet.drainBur b running fleet =
      { fleet with
        currBur := running.drop (running.length - b).toNat
        stoppedInstancesPending :=
          fleet.stoppedInstancesPending ++ running.take (running.length - b).toNat } := by
  induction running generalizing fleet with
  | nil =>
      unfold Fleet.drainBur
      rw [List.drop_nil, List.take_nil, List.append_nil, ← whole]
  | cons node rest ih =>
      unfold Fleet.drainBur
      split
      · rename_i above
        have count : ((node :: rest).length - b).toNat = (rest.length - b).toNat + 1 := by
          rw [List.length_cons] at above ⊢
          omega
        rw [ih _ rfl, count, List.drop_succ_cons, List.take_succ_cons, List.append_assoc]
        rfl
      · have none_ : ((node :: rest).length - b).toNat = 0 := by omega
        rw [none_, List.drop_zero, List.take_zero, List.append_nil, ← whole]

theorem drainBur_length {b : Int} (nonneg : 0 ≤ b) (running : List Node) (fleet : Fleet)
    (whole : fleet.currBur = running) :
    ((Fleet.drainBur b running fleet).currBur.length : Int) = min b running.length ∧
      (Fleet.drainBur b running fleet).currOnD = fleet.currOnD := by
  rw [drainBur_eq b running fleet whole]
  refine ⟨?_, rfl⟩
  rw [List.length_drop]
  omega

end Lengths

/-! ### The estimator's answer -/

def Config.Covers (cfg : Config) (onDTotal : Nat) : Prop :=
  ∀ onD : Int, 0 ≤ onD → onD ≤ onDTotal →
    (∃ row, cfg.throughputTable.lookup (toString onD) = some row) ∧
      ∀ throughput, ∃ b, findNumberOfBurstable cfg.throughputTable onD throughput 0 = some b ∧ 0 ≤ b

theorem covers_of_csv {cfg : Config} {griddata : Griddata} {csv : Csv} {table : ThroughputTable}
    {greatest : Int} {burlim : Int × Int} {onDTotal : Nat}
    (read : readTable csv = some (table, (0, greatest), burlim))
    (filled : fillUpThroughputTable griddata table (0, greatest) burlim = some cfg.throughputTable)
    (columns : 0 ≤ burlim.2) (enough : (onDTotal : Int) ≤ greatest) : cfg.Covers onDTotal := by
  have file := readTable_read read
  obtain ⟨numbered, complete⟩ := fillUp_complete file.numbered filled
  intro onD nonneg within
  have cell := complete onD (mem_rangeOf.mpr ⟨nonneg, by dsimp only; omega⟩) burlim.2
    (mem_rangeOf.mpr ⟨file.burRange, le_refl _⟩)
  refine ⟨⟨cell.choose, cell.choose_spec.1⟩, fun throughput => ?_⟩
  obtain ⟨b, found, positive⟩ := findNumberOfBurstable_isSome numbered cell throughput
  exact ⟨b, found, positive columns⟩

theorem targetOnD_range (changeVal : Int) (call : EstimatorCall) :
    0 ≤ targetOnD changeVal call ∧ targetOnD changeVal call ≤ call.onD + call.unusedOnD := by
  unfold targetOnD
  dsimp only
  split <;> split <;> omega

theorem resourceEstimator_answers {cfg : Config} {onDTotal : Nat} (covers : cfg.Covers onDTotal)
    (estimator : EstimatorState) {call : EstimatorCall}
    (all : call.onD + call.unusedOnD = onDTotal) :
    ∃ after od b row, resourceEstimator cfg estimator call = some (after, od, b) ∧
      cfg.throughputTable.lookup (toString od) = some row ∧
      (0 ≤ od ∧ od ≤ onDTotal) ∧ 0 ≤ b := by
  obtain ⟨low, high⟩ := targetOnD_range (estimator.accumulate cfg call.creditTotal).2 call
  have within : targetOnD (estimator.accumulate cfg call.creditTotal).2 call ≤ onDTotal := by omega
  obtain ⟨⟨row, there⟩, answers⟩ := covers _ low within
  obtain ⟨b, found, nonneg⟩ := answers call.desiredThroughput
  rw [resourceEstimator_eq, found, Option.map_some]
  refine ⟨_, _, _, row, rfl, there, ⟨low, within⟩, ?_⟩
  rw [if_neg (by omega)]
  exact nonneg

/-! ### Stages -/

def observeAnswer (cfg : Config) (before : State) (action : Act) (_after : State)
    (answer : Option (Int × Int)) : Option (Int × Int) :=
  match action, before.main with
  | .main _input, .estimate total throughput =>
      (resourceEstimator cfg before.estimator (before.call total throughput)).map fun result =>
        result.2
  | _, _ => answer

structure Fleet.Scaled (fleet : Fleet) (answer : Option (Int × Int)) (b : Int) : Prop where
  answered : answer = some ((fleet.currOnD.length : Int), b)
  nonneg : 0 ≤ b
  stopped : ∀ node ∈ fleet.stoppedInstances, node.burstable = false

def Fleet.Reaches (fleet : Fleet) (answer : Option (Int × Int)) (burTotal : Nat) : Prop :=
  ∃ od b : Int, answer = some (od, b) ∧ (fleet.currOnD.length : Int) = od ∧
    (fleet.currBur.length : Int) = min b burTotal

def Fleet.Staged (fleet : Fleet) (answer : Option (Int × Int)) (burTotal : Nat) : MainPc → Prop
  | .drainCheck j left => j + left = fleet.stoppedInstancesPending.length
  | .drainMove j left => j + left + 1 = fleet.stoppedInstancesPending.length
  | .stopIssue _i lenStopped => fleet.stoppedInstances.length = lenStopped
  | .stopBlock _i lenStopped => fleet.stoppedInstances.length = lenStopped
  | .repool left => fleet.stoppedInstances.length = left
  | .rate => fleet.stoppedInstances = []
  | .creditTotal _index _total _throughput => fleet.stoppedInstances = []
  | .estimate _total _throughput => fleet.stoppedInstances = []
  | .scaleOnD od b => fleet.stoppedInstances = [] ∧ answer = some (od, b) ∧
      (0 ≤ od ∧ od ≤ fleet.currOnD.length + fleet.onD.length) ∧ 0 ≤ b
  | .blockOnD _i stop b => stop = fleet.currOnD.length ∧ fleet.Scaled answer b
  | .scaleBur b => fleet.Scaled answer b
  | .blockBur _i stop => stop = fleet.currBur.length ∧ fleet.Reaches answer burTotal
  | .sortStart b => fleet.Scaled answer b ∧ b < fleet.currBur.length
  | .sorting b => fleet.Scaled answer b ∧ b < fleet.sorting.length
  | .drainPick b => fleet.Scaled answer b ∧ b < fleet.currBur.length
  | .sleep => fleet.Reaches answer burTotal
  | _ => True

def MainPc.left (onDTotal burTotal : Nat) : MainPc → Option Nat
  | .creditTotal index _total _throughput => some (burTotal - index + onDTotal + burTotal + 9)
  | .estimate _total _throughput => some (onDTotal + burTotal + 8)
  | .scaleOnD _od _b => some (onDTotal + burTotal + 7)
  | .blockOnD i stop _b => some (stop - i + burTotal + 6)
  | .scaleBur _b => some (burTotal + 5)
  | .blockBur i stop => some (stop - i + 1)
  | .sortStart _b => some 3
  | .sorting _b => some 2
  | .drainPick _b => some 1
  | _ => none

/-- What a step of the main thread keeps: the facts of its stage, no exception
but that of a division, and fewer steps left. -/
structure Advances (onDTotal burTotal : Nat) (answer : Option (Int × Int)) (before after : State) :
    Prop where
  staged : after.fleet.Staged answer burTotal after.main
  raised : after.main = .raised → before.main = .rate
  left : ∀ count, before.main.left onDTotal burTotal = some count →
    after.main = .sleep ∨ ∃ fewer, after.main.left onDTotal burTotal = some fewer ∧ fewer < count

structure State.Supplied (onDTotal burTotal : Nat) (state : State) : Prop where
  sized : state.fleet.Sized onDTotal burTotal
  typed : state.fleet.Typed
  keyed : state.fleet.Keyed
  held : state.SortHeld

section Stages

variable {cfg : Config} {input : MainInput} {state : State} {onDTotal burTotal : Nat}
  {answer : Option (Int × Int)}

private def MainPc.isRaised : MainPc → Bool
  | .raised => true
  | _ => false

private theorem Advances.early {after : State} (early : state.main.left onDTotal burTotal = none)
    (staged : after.fleet.Staged answer burTotal after.main) (alive : after.main.isRaised = false) :
    Advances onDTotal burTotal answer state after := by
  refine ⟨staged, ?_, ?_⟩
  · intro raised
    rw [raised] at alive
    cases alive
  · intro count some_
    rw [early] at some_
    cases some_

private theorem fewer_left {before after : MainPc} {count less : Nat}
    (here : before.left onDTotal burTotal = some count)
    (next : after.left onDTotal burTotal = some less) (fewer : less < count) :
    ∀ count, before.left onDTotal burTotal = some count →
      after = .sleep ∨ ∃ fewer, after.left onDTotal burTotal = some fewer ∧ fewer < count := by
  intro other same
  obtain rfl := Option.some.inj (here.symm.trans same)
  exact .inr ⟨less, next, fewer⟩

private theorem drainCheck_advances (j left : Nat) (here : state.main = .drainCheck j left)
    (staged : j + left = state.fleet.stoppedInstancesPending.length) :
    Advances onDTotal burTotal answer state (drainCheck input state j left) := by
  have early : state.main.left onDTotal burTotal = none := by
    rw [here]
    rfl
  cases left with
  | zero => exact .early early rfl rfl
  | succ left =>
      have inRange : j < state.fleet.stoppedInstancesPending.length := by omega
      simp only [drainCheck, List.getElem?_eq_getElem inRange]
      split
      · refine .early early ?_ rfl
        change j + left + 1 = state.fleet.stoppedInstancesPending.length
        omega
      · refine .early early ?_ rfl
        change j + 1 + left = state.fleet.stoppedInstancesPending.length
        omega

private theorem drainMove_advances (j left : Nat) (here : state.main = .drainMove j left)
    (staged : j + left + 1 = state.fleet.stoppedInstancesPending.length) :
    Advances onDTotal burTotal answer state (drainMove state j left) := by
  have inRange : j < state.fleet.stoppedInstancesPending.length := by omega
  unfold drainMove Fleet.retire
  rw [List.getElem?_eq_getElem inRange]
  refine .early (by rw [here]; rfl) ?_ rfl
  change j + left = (state.fleet.stoppedInstancesPending.eraseIdx j).length
  rw [List.length_eraseIdx_of_lt inRange]
  omega

private theorem stopIssue_advances (i lenStopped : Nat)
    (here : state.main = .stopIssue i lenStopped)
    (staged : state.fleet.stoppedInstances.length = lenStopped) :
    Advances onDTotal burTotal answer state (stopIssue state i lenStopped) := by
  have early : state.main.left onDTotal burTotal = none := by
    rw [here]
    rfl
  unfold stopIssue
  split
  · rename_i inside
    rw [List.getElem?_eq_getElem (by omega)]
    exact .early early staged rfl
  · exact .early early staged rfl

private theorem stopBlock_advances (i lenStopped : Nat)
    (here : state.main = .stopBlock i lenStopped)
    (staged : state.fleet.stoppedInstances.length = lenStopped) :
    Advances onDTotal burTotal answer state (stopBlock state i lenStopped) := by
  have early : state.main.left onDTotal burTotal = none := by
    rw [here]
    rfl
  unfold stopBlock
  split
  · rename_i inside
    rw [List.getElem?_eq_getElem (by omega)]
    exact .early early staged rfl
  · exact .early early staged rfl

private theorem repool_advances (left : Nat) (here : state.main = .repool left)
    (staged : state.fleet.stoppedInstances.length = left) (keyed : state.fleet.Keyed) :
    Advances onDTotal burTotal answer state (repool input state left) := by
  have early : state.main.left onDTotal burTotal = none := by
    rw [here]
    rfl
  cases left with
  | zero => exact .early early (List.eq_nil_of_length_eq_zero staged) rfl
  | succ left =>
      obtain ⟨fleet, repooled⟩ := keyed.repool input.now
        (List.ne_nil_of_length_pos (by omega : 0 < state.fleet.stoppedInstances.length))
      simp only [repool, repooled]
      refine .early early ?_ rfl
      unfold Fleet.repool at repooled
      split at repooled
      · cases repooled
      · rename_i node rest head
        rw [head, List.length_cons] at staged
        split at repooled
        · obtain ⟨burCost, _closed, rfl⟩ := Option.map_eq_some_iff.mp repooled
          exact Nat.succ.inj staged
        · obtain ⟨ondCost, _closed, rfl⟩ := Option.map_eq_some_iff.mp repooled
          exact Nat.succ.inj staged

private theorem measureRate_advances (here : state.main = .rate)
    (staged : state.fleet.stoppedInstances = []) :
    Advances onDTotal burTotal answer state (measureRate cfg input state) := by
  have none_ : ∀ count, state.main.left onDTotal burTotal ≠ some count := by
    rw [here]
    exact nofun
  unfold measureRate
  split
  · exact ⟨trivial, fun _raised => here, fun count some_ => absurd some_ (none_ count)⟩
  · dsimp only
    split
    · exact ⟨trivial, fun _raised => here, fun count some_ => absurd some_ (none_ count)⟩
    · exact ⟨staged, nofun, fun count some_ => absurd some_ (none_ count)⟩

private theorem creditTotal_advances (index : Nat) (total throughput : Rat)
    (here : state.main = .creditTotal index total throughput)
    (staged : state.fleet.stoppedInstances = []) (sized : state.fleet.Sized onDTotal burTotal) :
    Advances onDTotal burTotal answer state (creditTotal input state index total throughput) := by
  unfold creditTotal
  split
  · refine ⟨staged, nofun, ?_⟩
    rw [here]
    exact fewer_left rfl rfl (by omega)
  · rename_i fleet credit read
    obtain ⟨inRange, stopped⟩ := readCreditAt_bound read
    have total := sized.bur
    refine ⟨stopped.trans staged, nofun, ?_⟩
    rw [here]
    exact fewer_left rfl rfl (by omega)

theorem Fleet.Sized.onD_all {fleet : Fleet} (sized : fleet.Sized onDTotal burTotal)
    (empty : fleet.stoppedInstances = []) :
    fleet.currOnD.length + fleet.onD.length = onDTotal := by
  have total := sized.onD
  rw [empty, List.countP_nil] at total
  omega

private theorem estimate_advances (total throughput : Rat)
    (here : state.main = .estimate total throughput) (covers : cfg.Covers onDTotal)
    (staged : state.fleet.stoppedInstances = []) (sized : state.fleet.Sized onDTotal burTotal) :
    Advances onDTotal burTotal
      (observeAnswer cfg state (.main input) (estimate (policies cfg) input state total throughput)
        answer) state (estimate (policies cfg) input state total throughput) := by
  have all : (state.call total throughput).onD + (state.call total throughput).unusedOnD =
      onDTotal := sized.onD_all staged
  obtain ⟨after, od, b, row, answered, _there, bounds, nonneg⟩ :=
    resourceEstimator_answers covers state.estimator all
  have remembered : observeAnswer cfg state (.main input)
      (estimate (policies cfg) input state total throughput) answer = some (od, b) := by
    unfold observeAnswer
    rw [here]
    dsimp only
    rw [answered, Option.map_some]
  rw [remembered]
  unfold estimate policies
  rw [answered]
  refine ⟨⟨staged, rfl, ⟨bounds.1, ?_⟩, nonneg⟩, nofun, ?_⟩
  · have whole := sized.onD_all staged
    dsimp only
    omega
  · rw [here]
    intro count same
    obtain rfl := Option.some.inj same
    exact .inr ⟨_, rfl, by omega⟩

private theorem scaleOnD_advances (od b : Int) (here : state.main = .scaleOnD od b)
    (staged : state.fleet.Staged answer burTotal (.scaleOnD od b))
    (supplied : state.Supplied onDTotal burTotal) :
    Advances onDTotal burTotal answer state (scaleOnD input state od b) := by
  obtain ⟨empty, answered, bounds, nonneg⟩ := staged
  have all := supplied.sized.onD_all empty
  have now : state.main.left onDTotal burTotal = some (onDTotal + burTotal + 7) := by
    rw [here]
    rfl
  unfold scaleOnD
  split
  · rename_i more
    have returned := supplied.keyed.startOnD supplied.typed input.now od
    obtain ⟨length, stopped⟩ := startOnD_length input.now od state.fleet.onD state.fleet returned
    dsimp only
    rw [if_neg (by rw [returned]; exact Bool.false_ne_true)]
    have reached : ((Fleet.startOnD input.now od state.fleet.onD state.fleet).fleet.currOnD.length :
        Int) = od := by omega
    refine ⟨⟨rfl, ?_, nonneg, ?_⟩, nofun, fewer_left now rfl ?_⟩
    · rw [answered, reached]
    · rw [stopped, empty]
      exact fun _node impossible => absurd impossible List.not_mem_nil
    · omega
  · split
    · rename_i less
      obtain ⟨returned, length, stopped⟩ := stopOnD_length bounds.1 state.fleet.currOnD state.fleet
        rfl (le_of_lt less) supplied.typed.currOnD
        (by rw [empty]; exact fun _node impossible => absurd impossible List.not_mem_nil)
      dsimp only
      rw [if_neg (by rw [returned]; exact Bool.false_ne_true)]
      refine ⟨⟨?_, nonneg, stopped⟩, nofun, fewer_left now rfl (by omega)⟩
      rw [answered, length]
    · rename_i notMore notLess
      have same : (state.fleet.currOnD.length : Int) = od := by omega
      refine ⟨⟨?_, nonneg, ?_⟩, nofun, fewer_left now rfl (by omega)⟩
      · rw [answered, same]
      · rw [empty]
        exact fun _node impossible => absurd impossible List.not_mem_nil

private theorem blockOnD_advances (i stop : Nat) (b : Int) (here : state.main = .blockOnD i stop b)
    (staged : state.fleet.Staged answer burTotal (.blockOnD i stop b)) :
    Advances onDTotal burTotal answer state (blockOnD state i stop b) := by
  obtain ⟨whole, scaled⟩ := staged
  unfold blockOnD
  split
  · rename_i inside
    rw [List.getElem?_eq_getElem (by omega : i < state.fleet.currOnD.length)]
    refine ⟨⟨whole, scaled.answered, scaled.nonneg, scaled.stopped⟩, nofun, ?_⟩
    rw [here]
    exact fewer_left rfl rfl (by omega)
  · refine ⟨scaled, nofun, ?_⟩
    rw [here]
    exact fewer_left rfl rfl (by omega)

/-- The burstable nodes that are neither running nor draining are in the pool. -/
theorem Fleet.Sized.bur_all {fleet : Fleet} (sized : fleet.Sized onDTotal burTotal)
    (onDemand : ∀ node ∈ fleet.stoppedInstances, node.burstable = false) :
    fleet.bur.length + fleet.currBur.length + fleet.sorting.length +
      fleet.stoppedInstancesPending.length = burTotal := by
  have total := sized.bur
  have none_ : fleet.stoppedInstances.countP Node.burstable = 0 := by
    rw [List.countP_eq_zero]
    intro node member
    rw [onDemand node member]
    exact Bool.false_ne_true
  omega

private theorem scaleBur_advances (b : Int) (here : state.main = .scaleBur b)
    (scaled : state.fleet.Scaled answer b) (supplied : state.Supplied onDTotal burTotal) :
    Advances onDTotal burTotal answer state (scaleBur cfg input state b) := by
  have idle : state.fleet.sorting = [] := supplied.held.outside (by rw [here]; rfl)
  have all := supplied.sized.bur_all scaled.stopped
  rw [idle, List.length_nil] at all
  unfold scaleBur
  split
  · rename_i more
    have returned := supplied.keyed.scaleUpBur supplied.typed input.now input.credit cfg.L b
    obtain ⟨length, running⟩ :=
      scaleUpBur_length input.now input.credit cfg.L state.fleet more returned
    have reached : ((state.fleet.scaleUpBur input.now input.credit cfg.L b).fleet.currBur.length :
        Int) = min b burTotal := by omega
    dsimp only
    rw [if_neg (by rw [returned]; exact Bool.false_ne_true)]
    refine ⟨⟨rfl, _, b, scaled.answered, by rw [running], reached⟩, nofun, ?_⟩
    rw [here]
    exact fewer_left rfl rfl (by omega)
  · split
    · rename_i less
      refine ⟨⟨⟨scaled.answered, scaled.nonneg, scaled.stopped⟩, ?_⟩, nofun, ?_⟩
      · change b < ((state.fleet.currBur.map (readCredit input.credit)).length : Int)
        rw [List.length_map]
        exact less
      · rw [here]
        exact fewer_left rfl rfl (by omega)
    · refine ⟨⟨_, b, scaled.answered, rfl, ?_⟩, nofun, fun _count _same => .inl rfl⟩
      dsimp only
      omega

private theorem blockBur_advances (i stop : Nat) (here : state.main = .blockBur i stop)
    (staged : state.fleet.Staged answer burTotal (.blockBur i stop)) :
    Advances onDTotal burTotal answer state (blockBur state i stop) := by
  obtain ⟨whole, reaches⟩ := staged
  unfold blockBur
  split
  · rename_i inside
    rw [List.getElem?_eq_getElem (by omega : i < state.fleet.currBur.length)]
    refine ⟨⟨whole, reaches⟩, nofun, ?_⟩
    rw [here]
    exact fewer_left rfl rfl (by omega)
  · exact ⟨reaches, nofun, fun _count _same => .inl rfl⟩

private theorem drainPick_advances (b : Int)
    (staged : state.fleet.Staged answer burTotal (.drainPick b))
    (supplied : state.Supplied onDTotal burTotal) :
    Advances onDTotal burTotal answer state
      { state with fleet := state.fleet.drainBur b state.fleet.currBur, main := .sleep } := by
  obtain ⟨scaled, above⟩ := staged
  have all := supplied.sized.bur_all scaled.stopped
  obtain ⟨length, running⟩ := drainBur_length scaled.nonneg state.fleet.currBur state.fleet rfl
  refine ⟨⟨_, b, scaled.answered, by rw [running], ?_⟩, nofun, fun _count _same => .inl rfl⟩
  rw [length]
  omega

end Stages

/-! ### Steps -/

section Steps

variable {cfg : Config} {before after : State} {onDTotal burTotal : Nat}
  {answer : Option (Int × Int)}

private theorem observeAnswer_other (action : Act)
    (other : ∀ total throughput, before.main ≠ .estimate total throughput) :
    observeAnswer cfg before action after answer = answer := by
  unfold observeAnswer
  split
  · rename_i total throughput here
    exact absurd here (other total throughput)
  · rfl

theorem mainStep_advances {input : MainInput} (covers : cfg.Covers onDTotal)
    (taken : mainStep (policies cfg) cfg input before = some after)
    (staged : before.fleet.Staged answer burTotal before.main)
    (supplied : before.Supplied onDTotal burTotal) :
    Advances onDTotal burTotal (observeAnswer cfg before (.main input) after answer)
      before after := by
  unfold mainStep at taken
  cases here : before.main <;> rw [here] at taken staged <;> cases taken
  case estimate total throughput =>
    exact estimate_advances total throughput here covers staged supplied.sized
  all_goals rw [observeAnswer_other _ (by rw [here]; nofun)]
  case loopHead =>
    have early : before.main.left onDTotal burTotal = none := by
      rw [here]
      rfl
    split
    · exact .early early (Nat.zero_add _) rfl
    · exact .early early trivial rfl
  case drainCheck j left => exact drainCheck_advances j left here staged
  case drainMove j left => exact drainMove_advances j left here staged
  case stopIssue i lenStopped => exact stopIssue_advances i lenStopped here staged
  case stopBlock i lenStopped => exact stopBlock_advances i lenStopped here staged
  case repool left => exact repool_advances left here staged supplied.keyed
  case rate => exact measureRate_advances here staged
  case creditTotal index total throughput =>
    exact creditTotal_advances index total throughput here staged supplied.sized
  case scaleOnD od b => exact scaleOnD_advances od b here staged supplied
  case blockOnD i stop b => exact blockOnD_advances i stop b here staged
  case scaleBur b => exact scaleBur_advances b here staged supplied
  case blockBur i stop => exact blockBur_advances i stop here staged
  case sortStart b =>
    obtain ⟨scaled, above⟩ := staged
    refine ⟨⟨⟨scaled.answered, scaled.nonneg, scaled.stopped⟩, above⟩, nofun, ?_⟩
    rw [here]
    exact fewer_left rfl rfl (by omega)
  case sorting b =>
    obtain ⟨scaled, above⟩ := staged
    have sorted := (sortAscending_perm Node.creditBalance before.fleet.sorting).length_eq
    refine ⟨⟨⟨scaled.answered, scaled.nonneg, scaled.stopped⟩, ?_⟩, nofun, ?_⟩
    · change b < ((sortAscending Node.creditBalance before.fleet.sorting).length : Int)
      rw [sorted]
      exact above
    · rw [here]
      exact fewer_left rfl rfl (by omega)
  case drainPick b => exact drainPick_advances b staged supplied
  case sleep => exact .early (by rw [here]; rfl) trivial rfl
  case finalWait =>
    have early : before.main.left onDTotal burTotal = none := by
      rw [here]
      rfl
    split
    · refine .early early ?_ (by rw [here]; rfl)
      rw [here]
      trivial
    · exact .early early trivial rfl
  case finish => exact .early (by rw [here]; rfl) trivial rfl

/-- The other thread changes no length and no stopped node. -/
theorem Fleet.Staged.touched {fleet : Fleet} {main : MainPc} {currBur pending : List Node}
    (staged : fleet.Staged answer burTotal main)
    (running : List.Forall₂ (Touched cfg) fleet.currBur currBur)
    (draining : List.Forall₂ (Touched cfg) fleet.stoppedInstancesPending pending) :
    Fleet.Staged { fleet with currBur := currBur, stoppedInstancesPending := pending } answer
      burTotal main := by
  have runningLength := running.length_eq
  have drainingLength := draining.length_eq
  cases main with
  | drainCheck j left => exact staged.trans drainingLength
  | drainMove j left => exact staged.trans drainingLength
  | blockOnD i stop b =>
      exact ⟨staged.1, staged.2.answered, staged.2.nonneg, staged.2.stopped⟩
  | scaleBur b => exact ⟨staged.answered, staged.nonneg, staged.stopped⟩
  | blockBur i stop =>
      obtain ⟨whole, od, b, answered, onD, bur⟩ := staged
      exact ⟨whole.trans runningLength, od, b, answered, onD, by rw [← runningLength]; exact bur⟩
  | sortStart b =>
      exact ⟨⟨staged.1.answered, staged.1.nonneg, staged.1.stopped⟩,
        by rw [← runningLength]; exact staged.2⟩
  | sorting b => exact ⟨⟨staged.1.answered, staged.1.nonneg, staged.1.stopped⟩, staged.2⟩
  | drainPick b =>
      exact ⟨⟨staged.1.answered, staged.1.nonneg, staged.1.stopped⟩,
        by rw [← runningLength]; exact staged.2⟩
  | sleep =>
      obtain ⟨od, b, answered, onD, bur⟩ := staged
      exact ⟨od, b, answered, onD, by rw [← runningLength]; exact bur⟩
  | _ => exact staged

end Steps

/-! ### Runs -/

section Runs

variable {cfg : Config} {base : UpstreamBlock} {created : List Info} {input : StartInput}
  {start state : State}

theorem reach_supplied {est : Estimator} {allowed : State → Act → Prop}
    (started : startUp cfg base created input = some start)
    (reach : Reach (step est cfg) allowed start state) :
    state.Supplied (createdOnD created) (createdBur created) :=
  ⟨reach_sized started reach, reach_typed started reach, reach_keyed started reach,
    reach_sortHeld started reach⟩

theorem reach_staged {answer : Option (Int × Int)} (covers : cfg.Covers (createdOnD created))
    (started : startUp cfg base created input = some start)
    (reach : Reach (monitored (step (policies cfg) cfg) (observeAnswer cfg)) (fun _ _ => True)
      (start, none) (state, answer)) :
    state.fleet.Staged answer (createdBur created) state.main := by
  have all : ∀ tracked : State × Option (Int × Int),
      Reach (monitored (step (policies cfg) cfg) (observeAnswer cfg)) (fun _ _ => True)
        (start, none) tracked →
      tracked.1.fleet.Staged tracked.2 (createdBur created) tracked.1.main := by
    intro tracked reach
    induction reach with
    | start =>
        obtain ⟨fleet, taken, launched⟩ := startUp_launched started
        dsimp only
        rw [launched.main]
        trivial
    | @next before after action reached _permitted taken ih =>
        obtain ⟨stepped, memory⟩ := monitored_eq_some.mp taken
        rw [memory]
        cases action with
        | main input =>
            exact (mainStep_advances covers stepped ih
              (reach_supplied started reached.unmonitored)).staged
        | short input =>
            have effect := shortStep_effect stepped
            obtain ⟨currBur, pending, running, draining, same⟩ := effect.touched
            rw [effect.main, same]
            exact ih.touched running draining
        | clientDone =>
            have same : after.1 = { before.1 with clientRunning := false } :=
              (Option.some.inj stepped).symm
            rw [same]
            exact ih
  exact all (state, answer) reach

end Runs

/-- A file with a row for no on-demand node and one for at least as many as were
created, its last column being a number of instances. In every state of every
run the call of the estimator finds all on-demand nodes in the pool or running
and its row in the table; its answer stays within what there is and is reached
by the stages that follow; and from the call on no step of the main thread
raises and fewer and fewer steps are left. -/
theorem scaling_reaches_target (cfg : Config) (griddata : Griddata) (csv : Csv)
    (table : ThroughputTable) (greatest : Int) (burlim : Int × Int) (base : UpstreamBlock)
    (created : List Info) (input : StartInput) (start state : State)
    (answer : Option (Int × Int))
    (read : readTable csv = some (table, (0, greatest), burlim))
    (filled : fillUpThroughputTable griddata table (0, greatest) burlim = some cfg.throughputTable)
    (columns : 0 ≤ burlim.2) (enough : (createdOnD created : Int) ≤ greatest)
    (started : startUp cfg base created input = some start)
    (reach : Reach (monitored (step (policies cfg) cfg) (observeAnswer cfg)) (fun _ _ => True)
      (start, none) (state, answer)) :
    (∀ total throughput, state.main = .estimate total throughput →
      state.fleet.stoppedInstances = [] ∧
      state.fleet.onD.length + state.fleet.currOnD.length = createdOnD created ∧
      ∃ after od b row,
        resourceEstimator cfg state.estimator (state.call total throughput) = some (after, od, b) ∧
        cfg.throughputTable.lookup (toString od) = some row ∧
        0 ≤ od ∧ od ≤ createdOnD created) ∧
    (∀ od b, state.main = .scaleOnD od b → answer = some (od, b) ∧
      od ≤ state.fleet.currOnD.length + state.fleet.onD.length) ∧
    (state.main = .sleep → ∃ od b : Int, answer = some (od, b) ∧
      (state.fleet.currOnD.length : Int) = od ∧
      (state.fleet.currBur.length : Int) = min b (createdBur created)) ∧
    (∀ told after, mainStep (policies cfg) cfg told state = some after → after.main = .raised →
      state.main = .rate) ∧
    ∀ count, state.main.left (createdOnD created) (createdBur created) = some count →
      ∀ told, ∃ after, mainStep (policies cfg) cfg told state = some after ∧
        (after.main = .sleep ∨ ∃ fewer,
          after.main.left (createdOnD created) (createdBur created) = some fewer ∧
            fewer < count) := by
  have covers : cfg.Covers (createdOnD created) := covers_of_csv read filled columns enough
  have supplied := reach_supplied started reach.unmonitored
  have staged := reach_staged covers started reach
  refine ⟨?_, ?_, ?_, ?_, ?_⟩
  · intro total throughput here
    rw [here] at staged
    have all : (state.call total throughput).onD + (state.call total throughput).unusedOnD =
        createdOnD created := supplied.sized.onD_all staged
    obtain ⟨after, od, b, row, answered, there, bounds, _nonneg⟩ :=
      resourceEstimator_answers covers state.estimator all
    refine ⟨staged, ?_, after, od, b, row, answered, there, bounds⟩
    have whole := supplied.sized.onD_all staged
    dsimp only at whole
    omega
  · intro od b here
    rw [here] at staged
    exact ⟨staged.2.1, staged.2.2.1.2⟩
  · intro here
    rw [here] at staged
    exact staged
  · intro told after taken raised
    exact (mainStep_advances covers taken staged supplied).raised raised
  · intro count here told
    cases taken : mainStep (policies cfg) cfg told state with
    | none =>
        rcases (mainStep_eq_none_iff (policies cfg) cfg told state).mp taken with ended | raised
        · rw [ended] at here
          cases here
        · rw [raised] at here
          cases here
    | some after =>
        exact ⟨after, rfl, (mainStep_advances covers taken staged supplied).left count here⟩

def sampleCsv : Csv :=
  ⟨["ond", "1", "2"], [["0", "100", "200"], ["1", "300", "400"]]⟩

def sampleGriddata : Griddata := fun _points _values queries =>
  some (queries.map fun _query => none)

/-- After an iteration of seventeen steps one node of each kind runs, as asked. -/
theorem scaling_reaches_target_sample :
    ∃ start state, sampleStart sampleConfig = some start ∧
      run (guarded (monitored (step (policies sampleConfig) sampleConfig)
        (observeAnswer sampleConfig)) fun _ _ => True) (start, none)
          (List.replicate 17 sampleMain) = some (state, some (1, 1)) ∧
      state.fleet.currOnD.length = 1 ∧
      (state.fleet.currBur.length : Int) = min 1 (createdBur sampleCreated) := by
  have seen : ((sampleStart sampleConfig).bind fun start =>
      (run (guarded (monitored (step (policies sampleConfig) sampleConfig)
        (observeAnswer sampleConfig)) fun _ _ => True) (start, none)
          (List.replicate 17 sampleMain)).map fun tracked => (tracked.1.main, tracked.2)) =
        some (.sleep, some (1, 1)) := by decide +kernel
  obtain ⟨start, started, next⟩ := Option.bind_eq_some_iff.mp seen
  obtain ⟨tracked, ran, shown⟩ := Option.map_eq_some_iff.mp next
  obtain ⟨asleep, answered⟩ := Prod.mk.inj shown
  have same : tracked = (tracked.1, some (1, 1)) := Prod.ext rfl answered
  rw [same] at ran
  have reached := scaling_reaches_target sampleConfig sampleGriddata sampleCsv
    sampleConfig.throughputTable 1 (1, 2) ⟨"least_conn", []⟩ sampleCreated
    ⟨true, true, some 0, fun _ => 0⟩ start tracked.1 (some (1, 1)) (by decide +kernel)
    (by decide +kernel) (by decide) (by decide) started (reach_of_guarded_run ran)
  obtain ⟨od, b, equal, onD, bur⟩ := reached.2.2.1 asleep
  cases equal
  exact ⟨start, tracked.1, started, ran, by exact_mod_cast onD, bur⟩

end AutoBurst.Controller
