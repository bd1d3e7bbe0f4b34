/-
How many instances there are of each kind and that each has its ledger, in
every state of every run. Neither needs the instances to be told apart.
-/

import AutoBurst.Controller.Billing

namespace AutoBurst.Controller

open Runs

/-! ### Numbers -/

def Info.credited (info : Info) : Bool :=
  startswith info.instanceType "t2" || startswith info.instanceType "t3" ||
    startswith info.instanceType "t4"

def createdOnD (created : List Info) : Nat := created.countP fun info => !info.burstable

def createdBur (created : List Info) : Nat := created.countP Info.credited

structure Fleet.Sized (onDTotal burTotal : Nat) (fleet : Fleet) : Prop where
  onD : fleet.onD.length + fleet.currOnD.length +
    fleet.stoppedInstances.countP (fun node => !node.burstable) = onDTotal
  bur : fleet.bur.length + fleet.currBur.length + fleet.sorting.length +
    fleet.stoppedInstancesPending.length + fleet.stoppedInstances.countP Node.burstable = burTotal

private theorem countP_all {nodes : List Node} {kind : Node → Bool}
    (all : ∀ node ∈ nodes, kind node = true) : nodes.countP kind = nodes.length :=
  List.countP_eq_length.mpr all

private theorem countP_none {nodes : List Node} {kind : Node → Bool}
    (none : ∀ node ∈ nodes, kind node = false) : nodes.countP kind = 0 := by
  rw [List.countP_eq_zero]
  intro node member
  rw [none node member]
  exact Bool.false_ne_true

theorem Fleet.Typed.sized {fleet : Fleet} (typed : fleet.Typed) :
    fleet.Sized (fleet.nodes.countP fun node => !node.burstable)
      (fleet.nodes.countP Node.burstable) := by
  have notOnD : ∀ nodes : List Node, (∀ node ∈ nodes, node.burstable = false) →
      ∀ node ∈ nodes, (!node.burstable) = true := by
    intro nodes all node member
    rw [all node member]
    rfl
  have notBur : ∀ nodes : List Node, (∀ node ∈ nodes, node.burstable = true) →
      ∀ node ∈ nodes, (!node.burstable) = false := by
    intro nodes all node member
    rw [all node member]
    rfl
  constructor
  · simp only [Fleet.nodes, List.countP_append, countP_all (notOnD _ typed.onD),
      countP_all (notOnD _ typed.currOnD), countP_none (notBur _ typed.bur),
      countP_none (notBur _ typed.currBur), countP_none (notBur _ typed.sorting),
      countP_none (notBur _ typed.pending)]
    omega
  · simp only [Fleet.nodes, List.countP_append, countP_none typed.onD, countP_none typed.currOnD,
      countP_all typed.bur, countP_all typed.currBur, countP_all typed.sorting,
      countP_all typed.pending]
    omega

section Start

variable {cfg : Config} {base : UpstreamBlock} {created : List Info} {input : StartInput}
  {start : State} {fleet : Fleet}

private theorem startswith_shorter {text long short : String}
    (shorter : short.toList <+: long.toList) (long_ : startswith text long = true) :
    startswith text short = true := by
  unfold startswith at long_ ⊢
  rw [List.isPrefixOf_iff_prefix] at long_ ⊢
  exact shorter.trans long_

/-- The three families are among the types that start with `t`. -/
theorem Info.burstable_of_credited {info : Info} (credited : info.credited = true) :
    info.burstable = true := by
  unfold Info.credited at credited
  unfold Info.burstable
  rw [Bool.or_eq_true, Bool.or_eq_true] at credited
  rcases credited with (t2 | t3) | t4
  · exact startswith_shorter (by decide) t2
  · exact startswith_shorter (by decide) t3
  · exact startswith_shorter (by decide) t4

theorem file_bur (fleet : Fleet) (wiki : Info) :
    (fleet.file wiki).bur.map Node.info =
      fleet.bur.map Node.info ++ [wiki].filter Info.credited := by
  unfold Fleet.file
  split
  · split
    · rename_i t2
      simp [Info.credited, t2, Node.new]
    · split
      · rename_i t3
        simp [Info.credited, t3, Node.new]
      · split
        · rename_i t4
          simp [Info.credited, t4, Node.new]
        · rename_i not2 not3 not4
          simp [Info.credited, not2, not3, not4]
  · rename_i other
    have uncredited : wiki.credited = false :=
      Bool.eq_false_iff.mpr fun credited => other (Info.burstable_of_credited credited)
    simp [uncredited]

theorem getWikiNodeInfo_bur (created : List Info) :
    (getWikiNodeInfo created).bur.map Node.info = created.filter Info.credited := by
  have filed : ∀ (rest : List Info) (fleet : Fleet),
      (rest.foldl Fleet.file fleet).bur.map Node.info =
        fleet.bur.map Node.info ++ rest.filter Info.credited := by
    intro rest
    induction rest with
    | nil => exact fun fleet => (List.append_nil _).symm
    | cons wiki rest ih =>
        intro fleet
        rw [List.foldl_cons, ih, file_bur, List.append_assoc, ← List.filter_append]
        rfl
  exact filed created Fleet.empty

theorem startUp_sized (started : startUp cfg base created input = some start) :
    start.fleet.Sized (createdOnD created) (createdBur created) := by
  obtain ⟨fleet, taken, launched⟩ := startUp_launched started
  obtain ⟨burCost, ondCost, lists⟩ := launched.lists
  have pools := getWikiNodeInfo_pools created
  have onDpool : (getWikiNodeInfo created).onD.length = createdOnD created := by
    rw [createdOnD, List.countP_eq_length_filter, ← pools.onD, List.length_map]
  have burPool : (getWikiNodeInfo created).bur.length = createdBur created := by
    rw [createdBur, List.countP_eq_length_filter, ← getWikiNodeInfo_bur, List.length_map]
  obtain ⟨fits, rfl⟩ := setStartUpNodes_eq_some.mp taken
  rw [lists]
  constructor
  · simp only [startedUp, pools.currOnD, pools.stopped, List.nil_append, List.length_map,
      List.length_drop, List.length_take, List.countP_nil]
    omega
  · simp only [startedUp, pools.currBur, pools.stopped, pools.sorting, pools.pending,
      List.nil_append, List.length_map, List.length_drop, List.length_take, List.countP_nil,
      List.length_nil]
    omega

end Start

section Runs

variable {est : Estimator} {cfg : Config} {base : UpstreamBlock} {created : List Info}
  {input : StartInput} {start state : State} {allowed : State → Act → Prop}

private theorem countP_of_listed {first last : Fleet} (kind : Info → Bool)
    (same : ∀ info, last.listed info = first.listed info) :
    last.nodes.countP (fun node => kind node.info) =
      first.nodes.countP (fun node => kind node.info) := by
  have infos := (List.perm_iff_count.mpr same).countP_eq kind
  rw [List.countP_map, List.countP_map] at infos
  exact infos

theorem reach_sized (started : startUp cfg base created input = some start)
    (reach : Reach (step est cfg) allowed start state) :
    state.fleet.Sized (createdOnD created) (createdBur created) := by
  have sized := (reach_typed started reach).sized
  have initial := (startUp_typed started).sized
  have whole := startUp_sized started
  have onD := countP_of_listed (fun info => !info.burstable) (reach_listed started reach)
  have bur := countP_of_listed Info.burstable (reach_listed started reach)
  have onDTotal := initial.onD.symm.trans whole.onD
  have burTotal := initial.bur.symm.trans whole.bur
  exact ⟨sized.onD.trans (onD.trans onDTotal), sized.bur.trans (bur.trans burTotal)⟩

end Runs

/-! ### Ledgers -/

structure Fleet.Keyed (fleet : Fleet) : Prop where
  bur : ∀ node ∈ fleet.nodes, node.burstable = true → (fleet.burCost node.id).isSome
  onD : ∀ node ∈ fleet.nodes, node.burstable = false → (fleet.ondCost node.id).isSome

theorem closeAt_found {ledger closed : Ledger} {id other : String} {now : Int}
    (taken : ledger.closeAt id now = some closed) (found : (ledger other).isSome) :
    (closed other).isSome := by
  obtain ⟨entries, _there, rfl⟩ := Option.map_eq_some_iff.mp taken
  dsimp only
  unfold Ledger.set
  by_cases here : other = id
  · subst here
    exact Option.isSome_iff_exists.mpr ⟨_, Function.update_self _ _ _⟩
  · rw [Function.update_of_ne here]
    exact found

theorem closeOpen_found {ledger : Ledger} {id : String} (now : String → Int)
    (found : (ledger id).isSome) : (ledger.closeOpen now id).isSome := by
  unfold Ledger.closeOpen
  rw [Option.isSome_map]
  exact found

/-- No move drops a key of a ledger. -/
theorem Move.keys {cfg : Config} {risks : Risk → Prop} {first last : Fleet}
    (move : Move cfg risks first last) (id : String) :
    ((first.burCost id).isSome → (last.burCost id).isSome) ∧
      ((first.ondCost id).isSome → (last.ondCost id).isSome) := by
  cases move with
  | repoolBur _head _kind closed => exact ⟨closeAt_found closed, fun found => found⟩
  | repoolOnD _head _kind closed => exact ⟨fun found => found, closeAt_found closed⟩
  | startOnD _head _weighed opened => exact ⟨fun found => found, openAt_found opened⟩
  | startBur _head opened => exact ⟨openAt_found opened, fun found => found⟩
  | close now => exact ⟨closeOpen_found now, closeOpen_found now⟩
  | _ => exact ⟨fun found => found, fun found => found⟩

theorem Move.keyed {cfg : Config} {risks : Risk → Prop} {first last : Fleet}
    (move : Move cfg risks first last) (keyed : first.Keyed) : last.Keyed := by
  have known : ∀ node ∈ last.nodes, ∃ original ∈ first.nodes, original.info = node.info := by
    intro node member
    have listed := (List.perm_iff_count.mpr move.listed).mem_iff.mp
      (List.mem_map_of_mem (f := Node.info) member)
    exact List.mem_map.mp listed
  constructor
  · intro node member kind
    obtain ⟨original, there, same⟩ := known node member
    have sameKind : original.burstable = true := by
      unfold Node.burstable at kind ⊢
      rw [same]
      exact kind
    have sameId : original.id = node.id := congrArg Info.instanceId same
    rw [← sameId]
    exact (move.keys original.id).1 (keyed.bur original there sameKind)
  · intro node member kind
    obtain ⟨original, there, same⟩ := known node member
    have sameKind : original.burstable = false := by
      unfold Node.burstable at kind ⊢
      rw [same]
      exact kind
    have sameId : original.id = node.id := congrArg Info.instanceId same
    rw [← sameId]
    exact (move.keys original.id).2 (keyed.onD original there sameKind)

theorem openAll_found {now : String → Int} {nodes : List Node} {ledger opened : Ledger}
    {id : String} (taken : openAll now nodes ledger = some opened) (found : (ledger id).isSome) :
    (opened id).isSome := by
  induction nodes generalizing ledger with
  | nil =>
      cases taken
      exact found
  | cons node rest ih =>
      obtain ⟨middle, first, later⟩ := Option.bind_eq_some_iff.mp taken
      exact ih later (openAt_found first found)

theorem freshLedger_found {pool : List Node} {node : Node} (member : node ∈ pool) :
    (freshLedger pool node.id).isSome = true := by
  unfold freshLedger
  rw [if_pos (List.mem_map_of_mem member)]
  rfl

section KeyedRuns

variable {est : Estimator} {cfg : Config} {base : UpstreamBlock} {created : List Info}
  {input : StartInput} {start state : State} {allowed : State → Act → Prop}

/-- The ledgers made for the pools keep their keys when the first entries are
opened. -/
theorem startUp_ledgers (started : startUp cfg base created input = some start) :
    (∀ node ∈ (getWikiNodeInfo created).bur, (start.fleet.burCost node.id).isSome) ∧
      ∀ node ∈ (getWikiNodeInfo created).onD, (start.fleet.ondCost node.id).isSome := by
  obtain ⟨fleet, taken, launched⟩ := Option.bind_eq_some_iff.mp started
  obtain ⟨_fits, rfl⟩ := setStartUpNodes_eq_some.mp taken
  obtain ⟨weighted, _weights, ledgers⟩ := Option.bind_eq_some_iff.mp launched
  obtain ⟨burCost, openedBur, rest⟩ := Option.bind_eq_some_iff.mp ledgers
  obtain ⟨ondCost, openedOnD, rfl⟩ := Option.map_eq_some_iff.mp rest
  exact ⟨fun node member => openAll_found openedBur (freshLedger_found member),
    fun node member => openAll_found openedOnD (freshLedger_found member)⟩

theorem startUp_keyed (started : startUp cfg base created input = some start) :
    start.fleet.Keyed := by
  have pools := getWikiNodeInfo_pools created
  obtain ⟨burKeys, onDKeys⟩ := startUp_ledgers started
  have pooled : ∀ node ∈ start.fleet.nodes,
      (∃ original ∈ (getWikiNodeInfo created).onD, original.info = node.info) ∨
        ∃ original ∈ (getWikiNodeInfo created).bur, original.info = node.info := by
    intro node member
    obtain ⟨fleet, taken, launched⟩ := startUp_launched started
    have count := setStartUpNodes_pools taken node.info
    rw [← launched_infos launched] at count
    have positive : 0 < start.fleet.listed node.info :=
      List.count_pos_iff.mpr (List.mem_map_of_mem member)
    rw [count] at positive
    rcases Nat.add_pos_iff_pos_or_pos.mp positive with onD | bur
    · exact .inl (List.mem_map.mp (List.count_pos_iff.mp onD))
    · exact .inr (List.mem_map.mp (List.count_pos_iff.mp bur))
  constructor
  · intro node member kind
    rcases pooled node member with onD | bur
    · obtain ⟨original, there, same⟩ := onD
      have other := pools.onDKind original there
      unfold Node.burstable at kind other
      rw [same, kind] at other
      cases other
    · obtain ⟨original, there, same⟩ := bur
      have key := burKeys original there
      unfold Node.id at key ⊢
      rw [same] at key
      exact key
  · intro node member kind
    rcases pooled node member with onD | bur
    · obtain ⟨original, there, same⟩ := onD
      have key := onDKeys original there
      unfold Node.id at key ⊢
      rw [same] at key
      exact key
    · obtain ⟨original, there, same⟩ := bur
      have other := pools.burKind original there
      unfold Node.burstable at kind other
      rw [same, kind] at other
      cases other

theorem reach_keyed (started : startUp cfg base created input = some start)
    (reach : Reach (step est cfg) allowed start state) : state.fleet.Keyed := by
  refine reach_fleet (fun _risk => True) (fun _ _ _ _ _ => trivial) started reach Fleet.Keyed
    (startUp_keyed started) ?_
  intro first last move keyed
  exact move.keyed keyed

end KeyedRuns

section Keys

variable {fleet : Fleet}

theorem Fleet.Keyed.startOnD (keyed : fleet.Keyed) (typed : fleet.Typed) (now : String → Int)
    (od : Int) : (fleet.startOnD now od fleet.onD).raised = false := by
  apply startOnD_found
  intro node member
  refine keyed.onD node ?_ (typed.onD node member)
  simp only [Fleet.nodes, List.mem_append]
  tauto

theorem Fleet.Keyed.scaleUpBur (keyed : fleet.Keyed) (typed : fleet.Typed) (now : String → Int)
    (credit : String → Rat) (L b : Int) : (fleet.scaleUpBur now credit L b).raised = false := by
  apply scaleUpBur_found
  intro id member
  obtain ⟨node, there, rfl⟩ := List.mem_map.mp member
  refine keyed.bur node ?_ (typed.bur node there)
  simp only [Fleet.nodes, List.mem_append]
  tauto

theorem Fleet.Keyed.repool (keyed : fleet.Keyed) (now : String → Int)
    (nonempty : fleet.stoppedInstances ≠ []) : ∃ after, fleet.repool now = some after := by
  unfold Fleet.repool
  split
  · rename_i empty
    exact absurd empty nonempty
  · rename_i node rest head
    have member : node ∈ fleet.nodes := by
      unfold Fleet.nodes
      refine List.mem_append_right _ ?_
      rw [head]
      exact List.mem_cons_self
    split
    · rename_i kind
      obtain ⟨entries, found⟩ := Option.isSome_iff_exists.mp (keyed.bur node member kind)
      unfold Ledger.closeAt
      rw [found]
      exact ⟨_, rfl⟩
    · rename_i kind
      obtain ⟨entries, found⟩ := Option.isSome_iff_exists.mp
        (keyed.onD node member (Bool.eq_false_iff.mpr kind))
      unfold Ledger.closeAt
      rw [found]
      exact ⟨_, rfl⟩

end Keys

end AutoBurst.Controller
