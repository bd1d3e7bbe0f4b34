/-
The node lists of src/src/autoBurstController.py and what the stages of
`runExperiments` do to them: filing the created instances, the start-up
counts, draining, stopping, and both directions of scaling.

Each function here is the body of one loop or of one `with lock` block; the
order in which the two threads run them is the next module's. A node is in one
list at a time, so lists hold values where the source shares objects.
`allBurstables` is read by nothing and left out.
-/

import AutoBurst.Controller.Policies

namespace AutoBurst.Controller

/-- The module-level lists and ledgers with the log of commands. `sorting` holds
the items of `curr_bur` while `curr_bur.sort` runs and the list itself reads as
empty. -/
structure Fleet where
  onD : List Node
  currOnD : List Node
  bur : List Node
  currBur : List Node
  sorting : List Node
  stoppedInstancesPending : List Node
  stoppedInstances : List Node
  burCost : Ledger
  ondCost : Ledger
  log : List Command

def Fleet.empty : Fleet :=
  { onD := [], currOnD := [], bur := [], currBur := [], sorting := []
    stoppedInstancesPending := [], stoppedInstances := []
    burCost := Ledger.empty, ondCost := Ledger.empty, log := [] }

def Fleet.record (fleet : Fleet) (command : Command) : Fleet :=
  { fleet with log := command :: fleet.log }

/-! ### Start-up -/

/-- A type that starts with `t` but with none of the three families is filed
nowhere. -/
def Fleet.file (fleet : Fleet) (wiki : Info) : Fleet :=
  if startswith wiki.instanceType "t" then
    if startswith wiki.instanceType "t2" then
      { fleet with bur := fleet.bur ++ [Node.new wiki 1 60] }
    else if startswith wiki.instanceType "t3" then
      { fleet with bur := fleet.bur ++ [Node.new wiki 1 0] }
    else if startswith wiki.instanceType "t4" then
      { fleet with bur := fleet.bur ++ [Node.new wiki 1 0] }
    else fleet
  else { fleet with onD := fleet.onD ++ [Node.new wiki 1 0] }

def getWikiNodeInfo (created : List Info) : Fleet :=
  created.foldl Fleet.file Fleet.empty

def freshLedger (pool : List Node) : Ledger :=
  fun id => if id ∈ pool.map Node.id then some [] else none

/-- `curr_onD.append(onD.pop(0))`, so many times; an empty pool raises. -/
def Fleet.takeOnD : Nat → Fleet → Option Fleet
  | 0, fleet => some fleet
  | count + 1, fleet =>
      match fleet.onD with
      | [] => none
      | node :: pool =>
          Fleet.takeOnD count { fleet with onD := pool, currOnD := fleet.currOnD ++ [node] }

def Fleet.takeBur : Nat → Fleet → Option Fleet
  | 0, fleet => some fleet
  | count + 1, fleet =>
      match fleet.bur with
      | [] => none
      | node :: pool =>
          Fleet.takeBur count { fleet with bur := pool, currBur := fleet.currBur ++ [node] }

def Fleet.recordAll (fleet : Fleet) (command : String → Command) (nodes : List Node) : Fleet :=
  nodes.foldl (fun fleet node => fleet.record (command node.id)) fleet

def setStartUpNodes (fleet : Fleet) (initOd initBur : Nat) : Option Fleet :=
  let ledgers : Fleet :=
    { fleet with burCost := freshLedger fleet.bur, ondCost := freshLedger fleet.onD }
  (ledgers.takeOnD initOd).bind fun onDtaken =>
    (onDtaken.takeBur initBur).map fun taken =>
      let pools := taken.onD ++ taken.bur
      (taken.recordAll .stopInstanceNonBlocking pools).recordAll .blockStopped pools

/-- `ledger[id].append([now, 0])` for each node in turn. -/
def openAll (now : String → Int) : List Node → Ledger → Option Ledger
  | [], ledger => some ledger
  | node :: rest, ledger => (ledger.openAt node.id (now node.id)).bind (openAll now rest)

/-! ### Draining and stopping -/

/-- `stopped_instances.append(stopped_instances_pending.pop(j))` -/
def Fleet.retire (fleet : Fleet) (j : Nat) : Option Fleet :=
  (fleet.stoppedInstancesPending[j]?).map fun node =>
    { fleet with
      stoppedInstancesPending := fleet.stoppedInstancesPending.eraseIdx j
      stoppedInstances := fleet.stoppedInstances ++ [node] }

def Fleet.repool (fleet : Fleet) (now : String → Int) : Option Fleet :=
  match fleet.stoppedInstances with
  | [] => none
  | node :: rest =>
      if node.burstable then
        (fleet.burCost.closeAt node.id (now node.id)).map fun burCost =>
          { fleet with burCost := burCost, bur := fleet.bur ++ [node], stoppedInstances := rest }
      else
        (fleet.ondCost.closeAt node.id (now node.id)).map fun ondCost =>
          { fleet with ondCost := ondCost, onD := fleet.onD ++ [node], stoppedInstances := rest }

/-! ### Scaling on-demand nodes -/

/-- The outcome of a `with lock` body, which may have raised halfway. -/
structure Locked where
  fleet : Fleet
  raised : Bool

def Fleet.onDweight (fleet : Fleet) : Int :=
  match fleet.currOnD with
  | [] => 1
  | first :: _ => first.weight

/-- `while od > len(curr_onD)`, over the pool. -/
def Fleet.startOnD (now : String → Int) (od : Int) : List Node → Fleet → Locked
  | [], fleet => ⟨fleet, false⟩
  | node :: pool, fleet =>
      if od > fleet.currOnD.length then
        let started := { node with weight := fleet.onDweight }
        let commanded := fleet.record (.startInstance node.id)
        match fleet.ondCost.openAt node.id (now node.id) with
        | none => ⟨{ commanded with onD := started :: pool }, true⟩
        | some ondCost =>
            Fleet.startOnD now od pool
              { commanded with
                onD := pool, currOnD := fleet.currOnD ++ [started], ondCost := ondCost }
      else ⟨fleet, false⟩

/-- `while od < len(curr_onD)`: popping from the empty list raises. -/
def Fleet.stopOnD (od : Int) : List Node → Fleet → Locked
  | [], fleet => ⟨fleet, decide (od < 0)⟩
  | node :: rest, fleet =>
      if od < (node :: rest).length then
        Fleet.stopOnD od rest
          { fleet with currOnD := rest, stoppedInstances := fleet.stoppedInstances ++ [node] }
      else ⟨fleet, false⟩

/-! ### Scaling burstable nodes -/

def readCredit (credit : String → Rat) (node : Node) : Node :=
  { node with creditBalance := credit node.id }

/-- Draining nodes go back into rotation first, those with most credit first. -/
def Fleet.reactivate (L b : Int) : List Node → Fleet → Fleet
  | [], fleet => fleet
  | node :: rest, fleet =>
      if b > fleet.currBur.length then
        Fleet.reactivate L b rest
          { fleet with
            stoppedInstancesPending := rest
            currBur := fleet.currBur ++ [{ node with weight := L }] }
      else fleet

/-- The `elif` branch of the same loop, over the pool. -/
def Fleet.startBur (now : String → Int) (L b : Int) : List Node → Fleet → Locked
  | [], fleet => ⟨fleet, false⟩
  | node :: pool, fleet =>
      if b > fleet.currBur.length then
        let started := { node with weight := L }
        let commanded := fleet.record (.startInstance node.id)
        match fleet.burCost.openAt node.id (now node.id) with
        | none => ⟨{ commanded with bur := started :: pool }, true⟩
        | some burCost =>
            Fleet.startBur now L b pool
              { commanded with
                bur := pool, currBur := fleet.currBur ++ [started], burCost := burCost }
      else ⟨fleet, false⟩

def Fleet.scaleUpBur (fleet : Fleet) (now : String → Int) (credit : String → Rat) (L b : Int) :
    Locked :=
  let pending := sortDescending Node.creditBalance
    (fleet.stoppedInstancesPending.map (readCredit credit))
  let refreshed := { fleet with stoppedInstancesPending := pending }
  let reactivated := refreshed.reactivate L b pending
  reactivated.startBur now L b reactivated.bur

def Fleet.readCredits (fleet : Fleet) (credit : String → Rat) : Fleet :=
  { fleet with currBur := fleet.currBur.map (readCredit credit) }

/-- `curr_bur.sort(key=...)` up to the point where the list is empty. -/
def Fleet.beginSort (fleet : Fleet) : Fleet :=
  { fleet with sorting := fleet.currBur, currBur := [] }

def Fleet.endSort (fleet : Fleet) : Fleet :=
  { fleet with sorting := [], currBur := sortAscending Node.creditBalance fleet.sorting }

/-- `while len(curr_bur) > b and len(curr_bur) > 0`, over `curr_bur`. -/
def Fleet.drainBur (b : Int) : List Node → Fleet → Fleet
  | [], fleet => fleet
  | node :: rest, fleet =>
      if ((node :: rest).length : Int) > b then
        Fleet.drainBur b rest
          { fleet with
            currBur := rest
            stoppedInstancesPending := fleet.stoppedInstancesPending ++ [node] }
      else fleet

end AutoBurst.Controller
