/-
The controller's side of the load balancer: src/src/LoadBalancerUtility.py.

A configuration file is modelled by its upstream block, a policy line and the
servers by address and weight; the rest of the file is never changed and its
text form is not part of this module. A transfer by scp may fail, which the
caller does not notice.
-/

import AutoBurst.Controller.Instance

namespace AutoBurst.Controller

abbrev IpWeight := String × Int

structure UpstreamBlock where
  lbPolicy : String
  servers : List IpWeight
deriving DecidableEq, Repr

/-- The module-level variables, the local temporary file and the file on the
load balancer. -/
structure LoadBalancer where
  prevReqs : Int
  prevIpWeight : List IpWeight
  wikiConfigTemp : UpstreamBlock
  wikiConfigRemote : UpstreamBlock
deriving DecidableEq, Repr

/-! ### Request counter -/

/-- `some` is a parsed counter value, `none` the `except` branch. -/
def getNumberOfReqs (lb : LoadBalancer) (reading : Option Int) : Int :=
  match reading with
  | some currReqs => currReqs
  | none => lb.prevReqs

/-- The main loop's rate since its previous reading; the status request itself
is not counted. -/
def countedReqs (lb : LoadBalancer) (prevReqs : Int) (reading : Option Int) : Int :=
  getNumberOfReqs lb reading - prevReqs - 1

def arrivalRate (lb : LoadBalancer) (prevReqs : Int) (reading : Option Int)
    (duration : Rat) : Rat :=
  countedReqs lb prevReqs reading / duration

/-! ### Configuration -/

/-- The first entry of the block stays, the servers are written anew. -/
def initializeNginxConf (lb : LoadBalancer) (serverIpList : List IpWeight) : LoadBalancer :=
  { lb with wikiConfigTemp := { lb.wikiConfigTemp with servers := serverIpList } }

def sendUpdatedNginxConf (lb : LoadBalancer) (sent : Bool) : LoadBalancer :=
  if sent then { lb with wikiConfigRemote := lb.wikiConfigTemp } else lb

def setupIntialNginxConf (base : UpstreamBlock) (created : List Info) (sent : Bool) :
    LoadBalancer :=
  let start : LoadBalancer :=
    { prevReqs := 0, prevIpWeight := [], wikiConfigTemp := base, wikiConfigRemote := base }
  let wikiIps := created.map fun info => (info.privateIpAddress, (1 : Int))
  if wikiIps.isEmpty then start
  else sendUpdatedNginxConf (initializeNginxConf start wikiIps) sent

def Node.entry (node : Node) : IpWeight := (node.info.privateIpAddress, node.weight)

def ipWeight (currOnD currBur pendingStop : List Node) : List IpWeight :=
  currOnD.map Node.entry ++ currBur.map Node.entry ++ pendingStop.map Node.entry

/-- `not prevIpWeight or not (same length and as many equal pairs)` -/
def needsRewrite (prevIpWeight ipWeight : List IpWeight) : Bool :=
  prevIpWeight.isEmpty ||
    !(ipWeight.length == prevIpWeight.length &&
      ipWeight.length ==
        ((ipWeight.zip prevIpWeight).filter (fun pair => pair.1 == pair.2)).length)

def updateWith (lb : LoadBalancer) (ipWeight : List IpWeight) (sent : Bool) : LoadBalancer :=
  let written :=
    if needsRewrite lb.prevIpWeight ipWeight then
      sendUpdatedNginxConf (initializeNginxConf lb ipWeight) sent
    else lb
  { written with prevIpWeight := ipWeight }

def updateConf (lb : LoadBalancer) (currOnD currBur pendingStop : List Node) (sent : Bool) :
    LoadBalancer :=
  updateWith lb (ipWeight currOnD currBur pendingStop) sent

/-! ### The change detector -/

private theorem zip_filter_length_le (left right : List IpWeight) :
    ((left.zip right).filter (fun pair => pair.1 == pair.2)).length ≤ left.length := by
  have filtered := List.length_filter_le (fun pair : IpWeight × IpWeight => pair.1 == pair.2)
    (left.zip right)
  rw [List.length_zip] at filtered
  omega

private theorem eq_of_zip_filter (left right : List IpWeight)
    (lengths : left.length = right.length)
    (pairs : left.length =
      ((left.zip right).filter (fun pair => pair.1 == pair.2)).length) : left = right := by
  induction left generalizing right with
  | nil =>
      cases right with
      | nil => rfl
      | cons head tail => cases lengths
  | cons first rest ih =>
      cases right with
      | nil => cases lengths
      | cons head tail =>
          have tailLengths : rest.length = tail.length := Nat.succ.inj lengths
          have bound := zip_filter_length_le rest tail
          by_cases same : first = head
          · subst same
            simp only [List.zip_cons_cons, List.length_cons, List.filter_cons, beq_self_eq_true,
              if_true] at pairs
            rw [ih tail tailLengths (Nat.succ.inj pairs)]
          · simp only [List.zip_cons_cons, List.length_cons, List.filter_cons,
              beq_eq_false_iff_ne.mpr same, Bool.false_eq_true, if_false] at pairs
            omega

private theorem zip_self_filter_length (list : List IpWeight) :
    ((list.zip list).filter (fun pair => pair.1 == pair.2)).length = list.length := by
  induction list with
  | nil => rfl
  | cons head tail ih =>
      simp only [List.zip_cons_cons, List.filter_cons, beq_self_eq_true, if_true,
        List.length_cons, ih]

/-- A rewrite is skipped exactly when the list is the cached one, not empty. -/
theorem needsRewrite_eq_false_iff (prev list : List IpWeight) :
    needsRewrite prev list = false ↔ prev ≠ [] ∧ list = prev := by
  unfold needsRewrite
  constructor
  · intro skipped
    simp only [Bool.or_eq_false_iff, List.isEmpty_eq_false_iff, Bool.not_eq_false',
      Bool.and_eq_true, beq_iff_eq] at skipped
    exact ⟨skipped.1, eq_of_zip_filter list prev skipped.2.1 skipped.2.2⟩
  · intro both
    obtain ⟨nonempty, same⟩ := both
    subst same
    simp only [zip_self_filter_length, beq_self_eq_true, Bool.and_self, Bool.not_true,
      Bool.or_false, List.isEmpty_eq_false_iff]
    exact nonempty

end AutoBurst.Controller
