/-
What filing the created instances, the start-up counts and the initial weights
leave behind: the specification of the state the threads start from.
-/

import AutoBurst.Controller.Simulation

namespace AutoBurst.Controller

/-! ### Filing -/

def Info.Fileable (info : Info) : Prop :=
  startswith info.instanceType "t" = false ∨ startswith info.instanceType "t2" = true ∨
    startswith info.instanceType "t3" = true ∨ startswith info.instanceType "t4" = true

instance (info : Info) : Decidable info.Fileable :=
  inferInstanceAs (Decidable (_ ∨ _ ∨ _ ∨ _))

structure Pools (created : List Info) (fleet : Fleet) : Prop where
  currOnD : fleet.currOnD = []
  currBur : fleet.currBur = []
  sorting : fleet.sorting = []
  pending : fleet.stoppedInstancesPending = []
  stopped : fleet.stoppedInstances = []
  log : fleet.log = []
  onD : fleet.onD.map Node.info = created.filter fun info => !info.burstable
  burSub : (fleet.bur.map Node.info).Sublist (created.filter fun info => info.burstable)
  bur : (∀ info ∈ created, info.Fileable) →
    fleet.bur.map Node.info = created.filter fun info => info.burstable

private theorem Pools.file {created : List Info} {fleet : Fleet} (pools : Pools created fleet)
    (wiki : Info) : Pools (created ++ [wiki]) (fleet.file wiki) := by
  have burAppend : ∀ base, wiki.burstable = true →
      Pools (created ++ [wiki]) { fleet with bur := fleet.bur ++ [Node.new wiki 1 base] } := by
    intro base kind
    refine ⟨pools.currOnD, pools.currBur, pools.sorting, pools.pending, pools.stopped, pools.log,
      ?_, ?_, ?_⟩
    · simp [List.filter_append, kind, pools.onD]
    · rw [List.map_append, List.filter_append]
      exact pools.burSub.append (by simp [kind, Node.new])
    · intro fileable
      have earlier := pools.bur fun info member => fileable info (List.mem_append_left _ member)
      simp [List.filter_append, kind, earlier, Node.new]
  unfold Fleet.file
  split
  · rename_i kind
    split
    · exact burAppend 60 kind
    · split
      · exact burAppend 0 kind
      · split
        · exact burAppend 0 kind
        · rename_i not2 not3 not4
          refine ⟨pools.currOnD, pools.currBur, pools.sorting, pools.pending, pools.stopped,
            pools.log, ?_, ?_, ?_⟩
          · have burstable : wiki.burstable = true := kind
            simp [List.filter_append, burstable, pools.onD]
          · rw [List.filter_append]
            exact pools.burSub.trans (List.sublist_append_left _ _)
          · intro fileable
            have unfileable : ¬wiki.Fileable := by
              unfold Info.Fileable
              simp [kind, not2, not3, not4]
            exact absurd (fileable wiki (by simp)) unfileable
  · rename_i kind
    have onDemand : wiki.burstable = false := Bool.eq_false_iff.mpr kind
    refine ⟨pools.currOnD, pools.currBur, pools.sorting, pools.pending, pools.stopped, pools.log,
      ?_, ?_, ?_⟩
    · simp [List.filter_append, onDemand, pools.onD, Node.new]
    · rw [List.filter_append]
      exact pools.burSub.trans (List.sublist_append_left _ _)
    · intro fileable
      have earlier := pools.bur fun info member => fileable info (List.mem_append_left _ member)
      simp [List.filter_append, onDemand, earlier]

theorem getWikiNodeInfo_pools (created : List Info) : Pools created (getWikiNodeInfo created) := by
  have filed : ∀ (rest earlier : List Info) (fleet : Fleet), Pools earlier fleet →
      Pools (earlier ++ rest) (rest.foldl Fleet.file fleet) := by
    intro rest
    induction rest with
    | nil =>
        intro earlier fleet pools
        rw [List.append_nil]
        exact pools
    | cons wiki rest ih =>
        intro earlier fleet pools
        have next := ih (earlier ++ [wiki]) (fleet.file wiki) (pools.file wiki)
        rw [List.append_assoc] at next
        exact next
  exact filed created [] Fleet.empty
    ⟨rfl, rfl, rfl, rfl, rfl, rfl, rfl, List.Sublist.refl _, fun _fileable => rfl⟩

theorem Pools.onDKind {created : List Info} {fleet : Fleet} (pools : Pools created fleet) :
    ∀ node ∈ fleet.onD, node.burstable = false := by
  intro node member
  have listed : node.info ∈ created.filter fun info => !info.burstable := by
    rw [← pools.onD]
    exact List.mem_map_of_mem member
  have kind := (List.mem_filter.mp listed).2
  rw [Bool.not_eq_true'] at kind
  exact kind

theorem Pools.burKind {created : List Info} {fleet : Fleet} (pools : Pools created fleet) :
    ∀ node ∈ fleet.bur, node.burstable = true := by
  intro node member
  exact (List.mem_filter.mp (pools.burSub.subset (List.mem_map_of_mem member))).2

/-! ### Start-up counts -/

theorem takeOnD_eq (count : Nat) (fleet : Fleet) :
    Fleet.takeOnD count fleet =
      if count ≤ fleet.onD.length then
        some { fleet with
          onD := fleet.onD.drop count, currOnD := fleet.currOnD ++ fleet.onD.take count }
      else none := by
  induction count generalizing fleet with
  | zero => simp [Fleet.takeOnD]
  | succ count ih =>
      unfold Fleet.takeOnD
      split
      · rename_i empty
        simp [empty]
      · rename_i node pool first
        rw [ih, first]
        simp

theorem takeBur_eq (count : Nat) (fleet : Fleet) :
    Fleet.takeBur count fleet =
      if count ≤ fleet.bur.length then
        some { fleet with
          bur := fleet.bur.drop count, currBur := fleet.currBur ++ fleet.bur.take count }
      else none := by
  induction count generalizing fleet with
  | zero => simp [Fleet.takeBur]
  | succ count ih =>
      unfold Fleet.takeBur
      split
      · rename_i empty
        simp [empty]
      · rename_i node pool first
        rw [ih, first]
        simp

theorem recordAll_eq (command : String → Command) (nodes : List Node) (fleet : Fleet) :
    fleet.recordAll command nodes =
      { fleet with log := (nodes.map fun node => command node.id).reverse ++ fleet.log } := by
  unfold Fleet.recordAll
  induction nodes generalizing fleet with
  | nil => rfl
  | cons node rest ih =>
      rw [List.foldl_cons, ih]
      simp [Fleet.record]

def startedUp (fleet : Fleet) (initOd initBur : Nat) : Fleet :=
  let pools := fleet.onD.drop initOd ++ fleet.bur.drop initBur
  { fleet with
    onD := fleet.onD.drop initOd
    currOnD := fleet.currOnD ++ fleet.onD.take initOd
    bur := fleet.bur.drop initBur
    currBur := fleet.currBur ++ fleet.bur.take initBur
    burCost := freshLedger fleet.bur
    ondCost := freshLedger fleet.onD
    log := (pools.map fun node => Command.blockStopped node.id).reverse ++
      ((pools.map fun node => Command.stopInstanceNonBlocking node.id).reverse ++ fleet.log) }

theorem setStartUpNodes_eq_some {fleet after : Fleet} {initOd initBur : Nat} :
    setStartUpNodes fleet initOd initBur = some after ↔
      (initOd ≤ fleet.onD.length ∧ initBur ≤ fleet.bur.length) ∧
        after = startedUp fleet initOd initBur := by
  simp only [setStartUpNodes, takeOnD_eq]
  by_cases onDfits : initOd ≤ fleet.onD.length
  · rw [if_pos onDfits, Option.bind_some, takeBur_eq]
    by_cases burFits : initBur ≤ fleet.bur.length
    · rw [if_pos burFits, Option.map_some, Option.some.injEq, and_iff_right ⟨onDfits, burFits⟩]
      simp only [recordAll_eq]
      exact eq_comm
    · simp [burFits]
  · simp [onDfits]

/-! ### The first state -/

structure Launched (cfg : Config) (fleet : Fleet) (start : State) : Prop where
  lists : ∃ burCost ondCost, start.fleet = { fleet with
    currOnD := fleet.currOnD.map fun node => { node with weight := cfg.H }
    currBur := fleet.currBur.map fun node => { node with weight := cfg.clampWeight cfg.initWeight }
    burCost := burCost
    ondCost := ondCost }
  upstream : start.upstream = start.fleet.currOnD ++ start.fleet.currBur
  main : start.main = .loopHead
  short : start.short = .check

theorem startUp_launched {cfg : Config} {base : UpstreamBlock} {created : List Info}
    {input : StartInput} {start : State} (started : startUp cfg base created input = some start) :
    ∃ fleet, setStartUpNodes (getWikiNodeInfo created) cfg.onDnodes cfg.burNodes = some fleet ∧
      Launched cfg fleet start := by
  obtain ⟨fleet, taken, launched⟩ := Option.bind_eq_some_iff.mp started
  refine ⟨fleet, taken, ?_⟩
  obtain ⟨weighted, weights, ledgers⟩ := Option.bind_eq_some_iff.mp launched
  obtain ⟨burCost, _opened, rest⟩ := Option.bind_eq_some_iff.mp ledgers
  obtain ⟨ondCost, _openedOnD, rfl⟩ := Option.map_eq_some_iff.mp rest
  unfold initWeight at weights
  split at weights
  · cases weights
  · cases weights
    exact ⟨⟨burCost, ondCost, rfl⟩, rfl, rfl, rfl⟩

theorem Launched.sortHeld {cfg : Config} {fleet : Fleet} {start : State}
    (launched : Launched cfg fleet start) (idle : fleet.sorting = []) : start.SortHeld := by
  constructor
  · intro inside
    rw [launched.main] at inside
    cases inside
  · intro _outside
    obtain ⟨burCost, ondCost, lists⟩ := launched.lists
    rw [lists]
    exact idle

/-! ### Invariants of runs -/

section Runs

open Runs

variable {est : Estimator} {cfg : Config} {base : UpstreamBlock} {created : List Info}
  {input : StartInput} {start state : State} {allowed : State → Act → Prop}

theorem setStartUpNodes_sorting {fleet : Fleet} {initOd initBur : Nat}
    (taken : setStartUpNodes (getWikiNodeInfo created) initOd initBur = some fleet) :
    fleet.sorting = [] := by
  obtain ⟨_fits, rfl⟩ := setStartUpNodes_eq_some.mp taken
  exact (getWikiNodeInfo_pools created).sorting

theorem setStartUpNodes_pending {fleet : Fleet} {initOd initBur : Nat}
    (taken : setStartUpNodes (getWikiNodeInfo created) initOd initBur = some fleet) :
    fleet.stoppedInstancesPending = [] := by
  obtain ⟨_fits, rfl⟩ := setStartUpNodes_eq_some.mp taken
  exact (getWikiNodeInfo_pools created).pending

theorem setStartUpNodes_log {fleet : Fleet} {initOd initBur : Nat}
    (taken : setStartUpNodes (getWikiNodeInfo created) initOd initBur = some fleet) :
    fleet.log =
      ((fleet.onD ++ fleet.bur).map fun node => Command.blockStopped node.id).reverse ++
        ((fleet.onD ++ fleet.bur).map fun node =>
          Command.stopInstanceNonBlocking node.id).reverse := by
  obtain ⟨_fits, rfl⟩ := setStartUpNodes_eq_some.mp taken
  simp only [startedUp, (getWikiNodeInfo_pools created).log, List.append_nil]

/-- Nothing is draining yet, so the first update lists the whole rotation. -/
theorem startUp_rotation (started : startUp cfg base created input = some start) :
    start.upstream = start.fleet.rotation := by
  obtain ⟨fleet, taken, launched⟩ := startUp_launched started
  have idle := setStartUpNodes_pending taken
  obtain ⟨burCost, ondCost, lists⟩ := launched.lists
  rw [launched.upstream, Fleet.rotation]
  rw [lists, idle, List.append_nil]

theorem reach_sortHeld (started : startUp cfg base created input = some start)
    (reach : Reach (step est cfg) allowed start state) : state.SortHeld := by
  obtain ⟨fleet, taken, launched⟩ := startUp_launched started
  apply reach.invariant State.SortHeld (launched.sortHeld (setStartUpNodes_sorting taken))
  intro before action after stepped _permitted held
  exact step_sortHeld stepped held

/-- A property of the lists that every move keeps, among the risky ones those
that the allowed steps can make, holds in every state reached. -/
theorem reach_fleet (permitted : Risk → Prop)
    (safe : ∀ before action, allowed before action →
      ∀ risk, before.risksOf action risk → permitted risk)
    (started : startUp cfg base created input = some start)
    (reach : Reach (step est cfg) allowed start state)
    (holds : Fleet → Prop) (initial : holds start.fleet)
    (kept : ∀ first last, Move cfg permitted first last → holds first → holds last) :
    holds state.fleet := by
  induction reach with
  | start => exact initial
  | @next before after action reached permission stepped ih =>
      have moves := step_moves stepped (reach_sortHeld started reached)
      exact moves_invariant moves (safe before action permission) holds kept ih

end Runs

end AutoBurst.Controller
