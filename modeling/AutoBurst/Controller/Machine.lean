/-
The main loop of `runExperiments` and the thread `shortTermDecision` as one
step relation, with the client thread's end as a third kind of step.

A `with lock` body is one step. Every other statement that reads or writes what
both threads see is a step of its own; `curr_bur.sort`, which the source leaves
outside the lock, is two. What the outside world answers (credits, metrics,
counters, latencies, times, the outcome of a transfer) comes with the action.
A call that waits or asks for a credit is taken to return.
-/

import AutoBurst.Controller.Fleet
import AutoBurst.Controller.LoadBalancer
import AutoBurst.Lib.Reach

namespace AutoBurst.Controller

/-- Where the main thread stands; the arguments are its local variables. -/
inductive MainPc
  | loopHead
  | drainCheck (j left : Nat)
  | drainMove (j left : Nat)
  | stopIssue (i lenStopped : Nat)
  | stopBlock (i lenStopped : Nat)
  | repool (left : Nat)
  | rate
  | creditTotal (index : Nat) (total throughput : Rat)
  | estimate (total throughput : Rat)
  | scaleOnD (od b : Int)
  | blockOnD (i stop : Nat) (b : Int)
  | scaleBur (b : Int)
  | blockBur (i stop : Nat)
  | sortStart (b : Int)
  | sorting (b : Int)
  | drainPick (b : Int)
  | sleep
  | finalWait
  | finish
  | done
  | raised
deriving DecidableEq

def MainPc.isSorting : MainPc → Bool
  | .sorting _b => true
  | _ => false

theorem MainPc.exists_of_isSorting {main : MainPc} (sorting : main.isSorting = true) :
    ∃ b, main = .sorting b := by
  cases main with
  | sorting b => exact ⟨b, rfl⟩
  | _ => cases sorting

inductive ShortPc
  | check
  | latency
  | locked (latency : Latency)
  | sleep
  | leave
  | exited
  | raised
deriving DecidableEq

def ShortPc.isLocked : ShortPc → Bool
  | .locked _latency => true
  | _ => false

/-- `upstream` is the list of nodes last passed through `updateConf`. -/
structure State where
  fleet : Fleet
  lb : LoadBalancer
  upstream : List Node
  optimizer : OptimizerState
  estimator : EstimatorState
  prevReqs : Int
  clientRunning : Bool
  shortTermThreadRunning : Bool
  main : MainPc
  short : ShortPc

structure MainInput where
  datapoints : String → List Datapoint
  credit : String → Rat
  now : String → Int
  reading : Option Int
  duration : Rat

structure ShortInput where
  latency : Latency
  sent : Bool

inductive Act
  | main (input : MainInput)
  | short (input : ShortInput)
  | clientDone

/-- The estimator as the main loop sees it. `resourceEstimator` is the source's;
results that hold for any outputs are stated for any such function. -/
abbrev Estimator :=
  MainInput → EstimatorState → EstimatorCall → Option (EstimatorState × Int × Int)

def policies (cfg : Config) : Estimator :=
  fun _input estimator call => resourceEstimator cfg estimator call

/-! ### Main thread -/

/-- One instance of `getCreditTotal`: the running nodes, then the draining ones. -/
def Fleet.readCreditAt (fleet : Fleet) (index : Nat) (credit : String → Rat) :
    Option (Fleet × Rat) :=
  match fleet.currBur[index]? with
  | some node =>
      some ({ fleet with currBur := fleet.currBur.modify index (readCredit credit) },
        credit node.id)
  | none =>
      (fleet.stoppedInstancesPending[index - fleet.currBur.length]?).map fun node =>
        ({ fleet with
            stoppedInstancesPending := fleet.stoppedInstancesPending.modify
              (index - fleet.currBur.length) (readCredit credit) },
          credit node.id)

/-- A credit is read as long as there is a node at the index. -/
theorem readCreditAt_bound {fleet after : Fleet} {index : Nat} {credit : String → Rat}
    {value : Rat} (read : fleet.readCreditAt index credit = some (after, value)) :
    index < fleet.currBur.length + fleet.stoppedInstancesPending.length ∧
      after.stoppedInstances = fleet.stoppedInstances := by
  unfold Fleet.readCreditAt at read
  split at read
  · rename_i node found
    obtain ⟨inRange, _same⟩ := List.getElem?_eq_some_iff.mp found
    obtain ⟨rfl, _value⟩ := Prod.mk.inj (Option.some.inj read)
    exact ⟨by omega, rfl⟩
  · rename_i missing
    obtain ⟨node, found, same⟩ := Option.map_eq_some_iff.mp read
    obtain ⟨inRange, _same⟩ := List.getElem?_eq_some_iff.mp found
    have beyond := List.getElem?_eq_none_iff.mp missing
    obtain ⟨rfl, _value⟩ := Prod.mk.inj same
    exact ⟨by omega, rfl⟩

section MainThread

variable (est : Estimator) (cfg : Config) (input : MainInput) (state : State)

def drainCheck (j : Nat) : Nat → State
  | 0 => { state with main := .stopIssue 0 state.fleet.stoppedInstances.length }
  | left + 1 =>
      match state.fleet.stoppedInstancesPending[j]? with
      | none => { state with main := .raised }
      | some node =>
          if getMetricStats (input.datapoints node.id) < 1 / 10 then
            { state with main := .drainMove j left }
          else { state with main := .drainCheck (j + 1) left }

def drainMove (j left : Nat) : State :=
  match state.fleet.retire j with
  | none => { state with main := .raised }
  | some fleet => { state with fleet := fleet, main := .drainCheck j left }

def stopIssue (i lenStopped : Nat) : State :=
  if i < lenStopped then
    match state.fleet.stoppedInstances[i]? with
    | none => { state with main := .raised }
    | some node =>
        { state with
          fleet := state.fleet.record (.stopInstanceNonBlocking node.id)
          main := .stopIssue (i + 1) lenStopped }
  else { state with main := .stopBlock 0 lenStopped }

def stopBlock (i lenStopped : Nat) : State :=
  if i < lenStopped then
    match state.fleet.stoppedInstances[i]? with
    | none => { state with main := .raised }
    | some node =>
        { state with
          fleet := state.fleet.record (.blockStopped node.id)
          main := .stopBlock (i + 1) lenStopped }
  else { state with main := .repool lenStopped }

def repool : Nat → State
  | 0 => { state with main := .rate }
  | left + 1 =>
      match state.fleet.repool input.now with
      | none => { state with main := .raised }
      | some fleet => { state with fleet := fleet, main := .repool left }

/-- Two divisions may fail: by the duration and by the desired load. -/
def measureRate : State :=
  if input.duration = 0 then { state with main := .raised }
  else
    let counted := { state with prevReqs := getNumberOfReqs state.lb input.reading }
    match desiredThroughput cfg
        (arrivalRate state.lb state.prevReqs input.reading input.duration) with
    | none => { counted with main := .raised }
    | some throughput => { counted with main := .creditTotal 0 0 throughput }

def creditTotal (index : Nat) (total throughput : Rat) : State :=
  match state.fleet.readCreditAt index input.credit with
  | none => { state with main := .estimate total throughput }
  | some (fleet, credit) =>
      { state with fleet := fleet, main := .creditTotal (index + 1) (total + credit) throughput }

def State.call (total throughput : Rat) : EstimatorCall :=
  { desiredThroughput := throughput
    creditTotal := total
    bur := state.fleet.currBur.length
    onD := state.fleet.currOnD.length
    unusedOnD := state.fleet.onD.length }

def estimate (total throughput : Rat) : State :=
  match est input state.estimator (state.call total throughput) with
  | none => { state with main := .raised }
  | some (estimator, od, b) => { state with estimator := estimator, main := .scaleOnD od b }

/-- The instances to wait for are those beyond the length before the start. -/
def scaleOnD (od b : Int) : State :=
  if od > state.fleet.currOnD.length then
    let outcome := state.fleet.startOnD input.now od state.fleet.onD
    if outcome.raised then { state with fleet := outcome.fleet, main := .raised }
    else
      { state with
        fleet := outcome.fleet
        main := .blockOnD state.fleet.currOnD.length outcome.fleet.currOnD.length b }
  else if od < state.fleet.currOnD.length then
    let outcome := state.fleet.stopOnD od state.fleet.currOnD
    { state with
      fleet := outcome.fleet
      main := if outcome.raised then .raised else .scaleBur b }
  else { state with main := .scaleBur b }

def blockOnD (i stop : Nat) (b : Int) : State :=
  if i < stop then
    match state.fleet.currOnD[i]? with
    | none => { state with main := .raised }
    | some node =>
        { state with
          fleet := state.fleet.record (.blockRunning node.id)
          main := .blockOnD (i + 1) stop b }
  else { state with main := .scaleBur b }

def scaleBur (b : Int) : State :=
  if b > state.fleet.currBur.length then
    let outcome := state.fleet.scaleUpBur input.now input.credit cfg.L b
    if outcome.raised then { state with fleet := outcome.fleet, main := .raised }
    else
      { state with
        fleet := outcome.fleet
        main := .blockBur state.fleet.currBur.length outcome.fleet.currBur.length }
  else if b < state.fleet.currBur.length then
    { state with fleet := state.fleet.readCredits input.credit, main := .sortStart b }
  else { state with main := .sleep }

def blockBur (i stop : Nat) : State :=
  if i < stop then
    match state.fleet.currBur[i]? with
    | none => { state with main := .raised }
    | some node =>
        { state with
          fleet := state.fleet.record (.blockRunning node.id)
          main := .blockBur (i + 1) stop }
  else { state with main := .sleep }

def finish : State :=
  { state with
    fleet := { state.fleet with
      burCost := state.fleet.burCost.closeOpen input.now
      ondCost := state.fleet.ondCost.closeOpen input.now }
    main := .done }

def mainStep : Option State :=
  match state.main with
  | .loopHead =>
      some (if state.clientRunning then
        { state with main := .drainCheck 0 state.fleet.stoppedInstancesPending.length }
        else { state with main := .finalWait })
  | .drainCheck j left => some (drainCheck input state j left)
  | .drainMove j left => some (drainMove state j left)
  | .stopIssue i lenStopped => some (stopIssue state i lenStopped)
  | .stopBlock i lenStopped => some (stopBlock state i lenStopped)
  | .repool left => some (repool input state left)
  | .rate => some (measureRate cfg input state)
  | .creditTotal index total throughput => some (creditTotal input state index total throughput)
  | .estimate total throughput => some (estimate est input state total throughput)
  | .scaleOnD od b => some (scaleOnD input state od b)
  | .blockOnD i stop b => some (blockOnD state i stop b)
  | .scaleBur b => some (scaleBur cfg input state b)
  | .blockBur i stop => some (blockBur state i stop)
  | .sortStart b => some { state with fleet := state.fleet.beginSort, main := .sorting b }
  | .sorting b => some { state with fleet := state.fleet.endSort, main := .drainPick b }
  | .drainPick b =>
      some { state with fleet := state.fleet.drainBur b state.fleet.currBur, main := .sleep }
  | .sleep => some { state with main := .loopHead }
  | .finalWait =>
      some (if state.shortTermThreadRunning then state else { state with main := .finish })
  | .finish => some (finish input state)
  | .done => none
  | .raised => none

/-- The main thread can always go on until it is done or has raised. -/
theorem mainStep_eq_none_iff :
    mainStep est cfg input state = none ↔ state.main = .done ∨ state.main = .raised := by
  unfold mainStep
  cases state.main <;> simp

theorem mainStep_running {after : State} (taken : mainStep est cfg input state = some after) :
    state.main ≠ .done ∧ state.main ≠ .raised := by
  rw [← not_or, ← mainStep_eq_none_iff est cfg input state, taken]
  nofun

end MainThread

/-! ### Short-term thread -/

section ShortThread

variable (cfg : Config) (state : State)

def Fleet.rotation (fleet : Fleet) : List Node :=
  fleet.currOnD ++ fleet.currBur ++ fleet.stoppedInstancesPending

def shortLocked (latency : Latency) (sent : Bool) : State :=
  let outcome := latencyOptimizer cfg state.optimizer state.fleet.currBur latency
    state.fleet.stoppedInstancesPending
  let fleet := { state.fleet with
    currBur := outcome.bur, stoppedInstancesPending := outcome.burStopPending }
  let weighed := { state with fleet := fleet, optimizer := outcome.optimizer }
  if outcome.raised then { weighed with short := .raised }
  else
    { weighed with
      lb := updateConf state.lb fleet.currOnD fleet.currBur fleet.stoppedInstancesPending sent
      upstream := fleet.rotation
      short := .sleep }

def shortStep (input : ShortInput) : Option State :=
  match state.short with
  | .check =>
      some (if state.clientRunning then { state with short := .latency }
        else { state with short := .leave })
  | .latency => some { state with short := .locked input.latency }
  | .locked latency => some (shortLocked cfg state latency input.sent)
  | .sleep => some { state with short := .check }
  | .leave => some { state with shortTermThreadRunning := false, short := .exited }
  | .exited => none
  | .raised => none

end ShortThread

def step (est : Estimator) (cfg : Config) (state : State) : Act → Option State
  | .main input => mainStep est cfg input state
  | .short input => shortStep cfg state input
  | .clientDone => some { state with clientRunning := false }

/-! ### Start-up -/

structure StartInput where
  initialSent : Bool
  sent : Bool
  reading : Option Int
  now : String → Int

/-- From `setStartUpNodes` to the first test of the loop condition. -/
def launch (cfg : Config) (lb : LoadBalancer) (fleet : Fleet) (input : StartInput) :
    Option State :=
  (initWeight cfg fleet.currOnD fleet.currBur).bind fun weighted =>
    let updated := updateConf lb weighted.onD weighted.bur [] input.sent
    (openAll input.now weighted.bur fleet.burCost).bind fun burCost =>
      (openAll input.now weighted.onD fleet.ondCost).map fun ondCost =>
        { fleet := { fleet with
            currOnD := weighted.onD, currBur := weighted.bur
            burCost := burCost, ondCost := ondCost }
          lb := updated
          upstream := weighted.onD ++ weighted.bur
          optimizer := weighted.optimizer
          estimator := EstimatorState.initial
          prevReqs := getNumberOfReqs updated input.reading
          clientRunning := true
          shortTermThreadRunning := true
          main := .loopHead
          short := .check }

def startUp (cfg : Config) (base : UpstreamBlock) (created : List Info) (input : StartInput) :
    Option State :=
  (setStartUpNodes (getWikiNodeInfo created) cfg.onDnodes cfg.burNodes).bind fun fleet =>
    launch cfg (setupIntialNginxConf base created input.initialSent) fleet input

end AutoBurst.Controller
