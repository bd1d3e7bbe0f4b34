/-
Instances as the controller sees them: src/src/Node.py and the calls of
src/src/InstanceUtility.py that start, stop and observe them.

A command is an entry of a log, newest first. Ids of load balancer, client and
database do not occur in it. The command line tools themselves are left out.
-/

import Mathlib.Data.Rat.Defs
import Mathlib.Data.List.Sort
import Mathlib.Algebra.Order.Ring.Unbundled.Rat

namespace AutoBurst.Controller

/-! ### Python built-ins -/

def startswith (text start : String) : Bool :=
  start.toList.isPrefixOf text.toList

/-- `int` of a number: truncation towards zero. -/
def truncate (value : Rat) : Int :=
  if 0 ≤ value then value.floor else value.ceil

/-- `list.sort(key=...)`: stable, ascending. -/
def sortAscending {α : Type} (key : α → Rat) (items : List α) : List α :=
  items.insertionSort (fun a b => key a ≤ key b)

/-- `list.sort(key=..., reverse=True)`: stable as well. -/
def sortDescending {α : Type} (key : α → Rat) (items : List α) : List α :=
  items.insertionSort (fun a b => key b ≤ key a)

theorem sortAscending_perm {α : Type} (key : α → Rat) (items : List α) :
    (sortAscending key items).Perm items :=
  List.perm_insertionSort _ items

theorem sortDescending_perm {α : Type} (key : α → Rat) (items : List α) :
    (sortDescending key items).Perm items :=
  List.perm_insertionSort _ items

/-! ### Nodes -/

structure Info where
  instanceId : String
  instanceType : String
  privateIpAddress : String
deriving DecidableEq, Repr

structure Node where
  info : Info
  weight : Int
  baseCreditBalance : Rat
  creditBalance : Rat
deriving DecidableEq, Repr

/-- `Node(info, weight, baseCreditBalance=0, creditBalance=0)` -/
def Node.new (info : Info) (weight : Int) (baseCreditBalance : Rat) : Node :=
  { info := info
    weight := weight
    baseCreditBalance := baseCreditBalance
    creditBalance := 0 }

def Node.id (node : Node) : String := node.info.instanceId

/-- The type test that files an instance: `InstanceType.startswith("t")`. -/
def Info.burstable (info : Info) : Bool := startswith info.instanceType "t"

def Node.burstable (node : Node) : Bool := node.info.burstable

/-! ### Metrics -/

structure Datapoint where
  timestamp : String
  value : Rat
deriving DecidableEq, Repr

/-- The pair that `getMetricStats` returns, `(-1, -1)` without a datapoint. -/
def latestDatapoint (datapoints : List Datapoint) : Rat × Option String :=
  match (datapoints.insertionSort (fun a b => a.timestamp ≤ b.timestamp)).getLast? with
  | some latest => (latest.value, some latest.timestamp)
  | none => (-1, none)

def getMetricStats (datapoints : List Datapoint) : Rat := (latestDatapoint datapoints).1

/-! ### Commands -/

/-- `block` entries are written when the awaited state is observed. -/
inductive Command
  | stopInstanceNonBlocking (id : String)
  | startInstance (id : String)
  | blockStopped (id : String)
  | blockRunning (id : String)
deriving DecidableEq, Repr

/-- Running from creation, or from an observed `running`, until the next stop
command. The log is newest first. -/
def confirmedRunning (id : String) : List Command → Bool
  | [] => true
  | .stopInstanceNonBlocking other :: earlier =>
      if other = id then false else confirmedRunning id earlier
  | .blockRunning other :: earlier =>
      if other = id then true else confirmedRunning id earlier
  | .startInstance _ :: earlier => confirmedRunning id earlier
  | .blockStopped _ :: earlier => confirmedRunning id earlier

@[simp] theorem confirmedRunning_stop (id other : String) (log : List Command) :
    confirmedRunning id (.stopInstanceNonBlocking other :: log) =
      if other = id then false else confirmedRunning id log := rfl

@[simp] theorem confirmedRunning_blockRunning (id other : String) (log : List Command) :
    confirmedRunning id (.blockRunning other :: log) =
      if other = id then true else confirmedRunning id log := rfl

/-! ### Cost ledgers -/

/-- A `[start, stop]` pair; `none` is the number `0` the source writes there. -/
structure CostEntry where
  start : Option Int
  stop : Option Int
deriving DecidableEq, Repr

abbrev Ledger := String → Option (List CostEntry)

def Ledger.empty : Ledger := fun _ => none

def Ledger.set (ledger : Ledger) (id : String) (entries : List CostEntry) : Ledger :=
  Function.update ledger id (some entries)

/-- `ledger[id].append([now, 0])`; `none` is a `KeyError`. -/
def Ledger.openAt (ledger : Ledger) (id : String) (now : Int) : Option Ledger :=
  (ledger id).map fun entries => ledger.set id (entries ++ [⟨some now, none⟩])

/-- The last entry, or `[0, 0]` if there is none, gets its stop time. -/
def Ledger.closeAt (ledger : Ledger) (id : String) (now : Int) : Option Ledger :=
  (ledger id).map fun entries =>
    let last := entries.getLast?.getD ⟨none, none⟩
    ledger.set id (entries.dropLast ++ [{ last with stop := some now }])

/-- The loop after the experiment: a last entry still open is closed. -/
def Ledger.closeOpen (ledger : Ledger) (now : String → Int) : Ledger :=
  fun id => (ledger id).map fun entries =>
    match entries.getLast? with
    | none => entries
    | some last =>
        if last.stop = none then entries.dropLast ++ [{ last with stop := some (now id) }]
        else entries

end AutoBurst.Controller
