/-
What the threads can do to the node lists, as a relation between fleets.

Every step of the machine is a sequence of such moves. A move says which node
goes from where to where and nothing about the stage it belongs to, so an
invariant of the lists is checked once per move and not once per statement of
the two threads. Four kinds of moves are only made at known points of the
main loop; a parameter says which of them are.
-/

import AutoBurst.Controller.Machine
import Mathlib.Logic.Relation
import Mathlib.Data.List.Forall2
import Mathlib.Data.List.Perm.Basic

namespace AutoBurst.Controller

def Touched (cfg : Config) (old new : Node) : Prop :=
  new.info = old.info ∧ (new.weight = old.weight ∨ ∃ weight, new.weight = cfg.clampWeight weight)

inductive Risk
  | stop (id : String)
  | firstOnD
  | beginSort
  | drainBur

inductive Move (cfg : Config) (risks : Risk → Prop) : Fleet → Fleet → Prop
  | touch {fleet : Fleet} {currBur pending : List Node}
      (running : List.Forall₂ (Touched cfg) fleet.currBur currBur)
      (draining : List.Forall₂ (Touched cfg) fleet.stoppedInstancesPending pending) :
      Move cfg risks fleet { fleet with currBur := currBur, stoppedInstancesPending := pending }
  | arrange {fleet : Fleet} {pending : List Node}
      (same : pending.Perm fleet.stoppedInstancesPending) :
      Move cfg risks fleet { fleet with stoppedInstancesPending := pending }
  | stop {fleet : Fleet} {node : Node} (member : node ∈ fleet.stoppedInstances)
      (risk : risks (.stop node.id)) :
      Move cfg risks fleet (fleet.record (.stopInstanceNonBlocking node.id))
  | stopped {fleet : Fleet} {node : Node} (member : node ∈ fleet.stoppedInstances) :
      Move cfg risks fleet (fleet.record (.blockStopped node.id))
  | running {fleet : Fleet} {node : Node} (member : node ∈ fleet.currOnD ++ fleet.currBur) :
      Move cfg risks fleet (fleet.record (.blockRunning node.id))
  | retire {fleet : Fleet} {node : Node} {earlier later : List Node}
      (found : fleet.stoppedInstancesPending = earlier ++ node :: later) :
      Move cfg risks fleet
        { fleet with
          stoppedInstancesPending := earlier ++ later
          stoppedInstances := fleet.stoppedInstances ++ [node] }
  | repoolBur {fleet : Fleet} {node : Node} {rest : List Node} {burCost : Ledger} {now : Int}
      (first : fleet.stoppedInstances = node :: rest) (kind : node.burstable = true)
      (closed : fleet.burCost.closeAt node.id now = some burCost) :
      Move cfg risks fleet
        { fleet with burCost := burCost, bur := fleet.bur ++ [node], stoppedInstances := rest }
  | repoolOnD {fleet : Fleet} {node : Node} {rest : List Node} {ondCost : Ledger} {now : Int}
      (first : fleet.stoppedInstances = node :: rest) (kind : node.burstable = false)
      (closed : fleet.ondCost.closeAt node.id now = some ondCost) :
      Move cfg risks fleet
        { fleet with ondCost := ondCost, onD := fleet.onD ++ [node], stoppedInstances := rest }
  | startOnD {fleet : Fleet} {node : Node} {pool : List Node} {ondCost : Ledger} {now : Int}
      (first : fleet.onD = node :: pool)
      (weighed : fleet.currOnD = [] → risks .firstOnD)
      (opened : fleet.ondCost.openAt node.id now = some ondCost) :
      Move cfg risks fleet
        { fleet.record (.startInstance node.id) with
          onD := pool
          currOnD := fleet.currOnD ++ [{ node with weight := fleet.onDweight }]
          ondCost := ondCost }
  | failOnD {fleet : Fleet} {node : Node} {pool : List Node} (first : fleet.onD = node :: pool) :
      Move cfg risks fleet
        { fleet.record (.startInstance node.id) with
          onD := { node with weight := fleet.onDweight } :: pool }
  | stopOnD {fleet : Fleet} {node : Node} {rest : List Node}
      (first : fleet.currOnD = node :: rest) :
      Move cfg risks fleet
        { fleet with currOnD := rest, stoppedInstances := fleet.stoppedInstances ++ [node] }
  | reactivate {fleet : Fleet} {node : Node} {rest : List Node}
      (first : fleet.stoppedInstancesPending = node :: rest) :
      Move cfg risks fleet
        { fleet with
          stoppedInstancesPending := rest
          currBur := fleet.currBur ++ [{ node with weight := cfg.L }] }
  | startBur {fleet : Fleet} {node : Node} {pool : List Node} {burCost : Ledger} {now : Int}
      (first : fleet.bur = node :: pool)
      (opened : fleet.burCost.openAt node.id now = some burCost) :
      Move cfg risks fleet
        { fleet.record (.startInstance node.id) with
          bur := pool
          currBur := fleet.currBur ++ [{ node with weight := cfg.L }]
          burCost := burCost }
  | failBur {fleet : Fleet} {node : Node} {pool : List Node} (first : fleet.bur = node :: pool) :
      Move cfg risks fleet
        { fleet.record (.startInstance node.id) with
          bur := { node with weight := cfg.L } :: pool }
  | beginSort {fleet : Fleet} (idle : fleet.sorting = []) (risk : risks .beginSort) :
      Move cfg risks fleet fleet.beginSort
  | endSort {fleet : Fleet} (empty : fleet.currBur = []) : Move cfg risks fleet fleet.endSort
  | drainBur {fleet : Fleet} {node : Node} {rest : List Node}
      (first : fleet.currBur = node :: rest) (risk : risks .drainBur) :
      Move cfg risks fleet
        { fleet with
          currBur := rest
          stoppedInstancesPending := fleet.stoppedInstancesPending ++ [node] }
  | close {fleet : Fleet} (now : String → Int) :
      Move cfg risks fleet
        { fleet with
          burCost := fleet.burCost.closeOpen now, ondCost := fleet.ondCost.closeOpen now }

abbrev Moves (cfg : Config) (risks : Risk → Prop) : Fleet → Fleet → Prop :=
  Relation.ReflTransGen (Move cfg risks)

theorem Move.mono {cfg : Config} {risks more : Risk → Prop} {first last : Fleet}
    (move : Move cfg risks first last) (le : ∀ risk, risks risk → more risk) :
    Move cfg more first last := by
  cases move with
  | touch running draining => exact .touch running draining
  | arrange same => exact .arrange same
  | stop member risk => exact .stop member (le _ risk)
  | stopped member => exact .stopped member
  | running member => exact .running member
  | retire found => exact .retire found
  | repoolBur head kind closed => exact .repoolBur head kind closed
  | repoolOnD head kind closed => exact .repoolOnD head kind closed
  | startOnD head weighed opened => exact .startOnD head (fun empty => le _ (weighed empty)) opened
  | failOnD head => exact .failOnD head
  | stopOnD head => exact .stopOnD head
  | reactivate head => exact .reactivate head
  | startBur head opened => exact .startBur head opened
  | failBur head => exact .failBur head
  | beginSort idle risk => exact .beginSort idle (le _ risk)
  | endSort empty => exact .endSort empty
  | drainBur head risk => exact .drainBur head (le _ risk)
  | close now => exact .close now

theorem moves_invariant {cfg : Config} {risks permitted : Risk → Prop} {first last : Fleet}
    (moves : Moves cfg risks first last) (safe : ∀ risk, risks risk → permitted risk)
    (holds : Fleet → Prop)
    (kept : ∀ before after, Move cfg permitted before after → holds before → holds after)
    (initial : holds first) : holds last := by
  induction moves with
  | refl => exact initial
  | tail _moves move ih => exact kept _ _ (move.mono safe) ih

/-! ### Properties of every node of a list -/

section Lists

variable {nodes rest earlier later : List Node} {node : Node} {P : Node → Prop}

theorem forall_snoc (all : ∀ member ∈ nodes, P member) (one : P node) :
    ∀ member ∈ nodes ++ [node], P member :=
  List.forall_mem_append.mpr ⟨all, List.forall_mem_singleton.mpr one⟩

theorem forall_uncons (head : nodes = node :: rest) (all : ∀ member ∈ nodes, P member) :
    P node ∧ ∀ member ∈ rest, P member := by
  subst head
  exact List.forall_mem_cons.mp all

theorem forall_remove (found : nodes = earlier ++ node :: later)
    (all : ∀ member ∈ nodes, P member) : ∀ member ∈ earlier ++ later, P member := by
  subst found
  obtain ⟨before, after⟩ := List.forall_mem_append.mp all
  exact List.forall_mem_append.mpr ⟨before, (List.forall_mem_cons.mp after).2⟩

end Lists

/-! ### Touched lists -/

section Touching

variable {cfg : Config}

theorem Touched.refl (node : Node) : Touched cfg node node :=
  ⟨rfl, .inl rfl⟩

theorem touched_same (nodes : List Node) : List.Forall₂ (Touched cfg) nodes nodes :=
  List.forall₂_same.mpr fun node _member => Touched.refl node

theorem touched_map (change : Node → Node) (touched : ∀ node, Touched cfg node (change node))
    (nodes : List Node) : List.Forall₂ (Touched cfg) nodes (nodes.map change) :=
  List.forall₂_map_right_iff.mpr (List.forall₂_same.mpr fun node _member => touched node)

theorem touched_modify (change : Node → Node) (touched : ∀ node, Touched cfg node (change node))
    (nodes : List Node) (index : Nat) :
    List.Forall₂ (Touched cfg) nodes (nodes.modify index change) := by
  induction nodes generalizing index with
  | nil =>
      rw [List.modify_nil]
      exact .nil
  | cons node rest ih =>
      cases index with
      | zero =>
          rw [List.modify_zero_cons]
          exact .cons (touched node) (touched_same rest)
      | succ index =>
          rw [List.modify_succ_cons]
          exact .cons (Touched.refl node) (ih index)

theorem readCredit_touched (credit : String → Rat) (node : Node) :
    Touched cfg node (readCredit credit node) :=
  ⟨rfl, .inl rfl⟩

theorem reweigh_touched (lweight least : Rat) (node : Node) :
    Touched cfg node (reweigh cfg lweight least node) :=
  ⟨rfl, .inr ⟨_, rfl⟩⟩

theorem reweighPending_touched (lweight : Rat) (node : Node) :
    Touched cfg node (reweighPending cfg lweight node) :=
  ⟨rfl, .inr ⟨_, rfl⟩⟩

end Touching

/-! ### Loops as sequences of moves -/

section Loops

variable {cfg : Config} {risks : Risk → Prop}

theorem startOnD_moves (now : String → Int) (od : Int) (pool : List Node) (fleet : Fleet)
    (whole : fleet.onD = pool)
    (weighed : 0 < od → fleet.currOnD = [] → fleet.onD ≠ [] → risks .firstOnD) :
    Moves cfg risks fleet (Fleet.startOnD now od pool fleet).fleet := by
  induction pool generalizing fleet with
  | nil => exact .refl
  | cons node pool ih =>
      unfold Fleet.startOnD
      split
      · rename_i short
        have risk : fleet.currOnD = [] → risks .firstOnD := by
          intro empty
          rw [empty] at short
          exact weighed short empty (by rw [whole]; exact List.cons_ne_nil _ _)
        split
        · exact .single (.failOnD whole)
        · rename_i ondCost opened
          refine .head (.startOnD whole risk opened) (ih _ rfl ?_)
          intro _positive empty _nonempty
          exact absurd empty (List.append_ne_nil_of_right_ne_nil _ (List.cons_ne_nil _ _))
      · exact .refl

theorem stopOnD_moves (od : Int) (running : List Node) (fleet : Fleet)
    (whole : fleet.currOnD = running) :
    Moves cfg risks fleet (Fleet.stopOnD od running fleet).fleet := by
  induction running generalizing fleet with
  | nil => exact .refl
  | cons node rest ih =>
      unfold Fleet.stopOnD
      split
      · exact .head (.stopOnD whole) (ih _ rfl)
      · exact .refl

theorem reactivate_moves (b : Int) (draining : List Node) (fleet : Fleet)
    (whole : fleet.stoppedInstancesPending = draining) :
    Moves cfg risks fleet (Fleet.reactivate cfg.L b draining fleet) := by
  induction draining generalizing fleet with
  | nil => exact .refl
  | cons node rest ih =>
      unfold Fleet.reactivate
      split
      · exact .head (.reactivate whole) (ih _ rfl)
      · exact .refl

theorem startBur_moves (now : String → Int) (b : Int) (pool : List Node) (fleet : Fleet)
    (whole : fleet.bur = pool) :
    Moves cfg risks fleet (Fleet.startBur now cfg.L b pool fleet).fleet := by
  induction pool generalizing fleet with
  | nil => exact .refl
  | cons node pool ih =>
      unfold Fleet.startBur
      split
      · split
        · exact .single (.failBur whole)
        · rename_i burCost opened
          exact .head (.startBur whole opened) (ih _ rfl)
      · exact .refl

theorem scaleUpBur_moves (now : String → Int) (credit : String → Rat) (b : Int) (fleet : Fleet) :
    Moves cfg risks fleet (fleet.scaleUpBur now credit cfg.L b).fleet := by
  have credited : Move cfg risks fleet _ :=
    .touch (touched_same fleet.currBur)
      (touched_map (readCredit credit) (readCredit_touched credit) fleet.stoppedInstancesPending)
  refine .head credited (.head (.arrange (sortDescending_perm Node.creditBalance _)) ?_)
  exact (reactivate_moves b _ _ rfl).trans (startBur_moves now b _ _ rfl)

theorem drainBur_moves (b : Int) (running : List Node) (fleet : Fleet)
    (whole : fleet.currBur = running) (risk : risks .drainBur) :
    Moves cfg risks fleet (Fleet.drainBur b running fleet) := by
  induction running generalizing fleet with
  | nil => exact .refl
  | cons node rest ih =>
      unfold Fleet.drainBur
      split
      · exact .head (.drainBur whole risk) (ih _ rfl)
      · exact .refl

theorem retire_move {fleet after : Fleet} {j : Nat} (retired : fleet.retire j = some after) :
    Move cfg risks fleet after := by
  obtain ⟨node, found, rfl⟩ := Option.map_eq_some_iff.mp retired
  obtain ⟨inRange, rfl⟩ := List.getElem?_eq_some_iff.mp found
  rw [List.eraseIdx_eq_take_drop_succ]
  exact .retire (by rw [← List.drop_eq_getElem_cons inRange, List.take_append_drop])

theorem repool_move {fleet after : Fleet} {now : String → Int}
    (repooled : fleet.repool now = some after) : Move cfg risks fleet after := by
  unfold Fleet.repool at repooled
  split at repooled
  · cases repooled
  · rename_i node rest first
    split at repooled
    · rename_i kind
      obtain ⟨burCost, closed, rfl⟩ := Option.map_eq_some_iff.mp repooled
      exact .repoolBur first kind closed
    · rename_i kind
      obtain ⟨ondCost, closed, rfl⟩ := Option.map_eq_some_iff.mp repooled
      exact .repoolOnD first (Bool.eq_false_iff.mpr kind) closed

theorem readCreditAt_move {fleet after : Fleet} {index : Nat} {credit : String → Rat} {value : Rat}
    (read : fleet.readCreditAt index credit = some (after, value)) :
    Move cfg risks fleet after := by
  unfold Fleet.readCreditAt at read
  split at read
  · obtain ⟨rfl, _value⟩ := Prod.mk.inj (Option.some.inj read)
    exact .touch (touched_modify _ (readCredit_touched credit) _ _) (touched_same _)
  · obtain ⟨node, _found, same⟩ := Option.map_eq_some_iff.mp read
    obtain ⟨rfl, _value⟩ := Prod.mk.inj same
    exact .touch (touched_same _) (touched_modify _ (readCredit_touched credit) _ _)

end Loops

end AutoBurst.Controller
