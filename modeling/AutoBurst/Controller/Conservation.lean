/-
No instance is lost, duplicated or misfiled: over every run, in every order of
the two threads' steps and for any estimator, the lists hold each created
instance once, the lists of one kind hold that kind only.
-/

import AutoBurst.Controller.StartUp

namespace AutoBurst.Controller

open Runs

def Fleet.nodes (fleet : Fleet) : List Node :=
  fleet.onD ++ fleet.currOnD ++ fleet.bur ++ fleet.currBur ++ fleet.sorting ++
    fleet.stoppedInstancesPending ++ fleet.stoppedInstances

def Fleet.listed (fleet : Fleet) (info : Info) : Nat :=
  (fleet.nodes.map Node.info).count info

structure Fleet.Typed (fleet : Fleet) : Prop where
  onD : ∀ node ∈ fleet.onD, node.burstable = false
  currOnD : ∀ node ∈ fleet.currOnD, node.burstable = false
  bur : ∀ node ∈ fleet.bur, node.burstable = true
  currBur : ∀ node ∈ fleet.currBur, node.burstable = true
  sorting : ∀ node ∈ fleet.sorting, node.burstable = true
  pending : ∀ node ∈ fleet.stoppedInstancesPending, node.burstable = true

/-! ### Moves -/

section Moves

variable {cfg : Config} {risks : Risk → Prop} {first last : Fleet}

theorem infos_of_touched {old new : List Node} (touched : List.Forall₂ (Touched cfg) old new) :
    new.map Node.info = old.map Node.info := by
  induction touched with
  | nil => rfl
  | cons same _rest ih => rw [List.map_cons, List.map_cons, same.1, ih]

theorem kind_of_touched {old new : List Node} {kind : Bool}
    (touched : List.Forall₂ (Touched cfg) old new)
    (all : ∀ node ∈ old, node.burstable = kind) : ∀ node ∈ new, node.burstable = kind := by
  intro node member
  have listed : node.info ∈ old.map Node.info := by
    rw [← infos_of_touched touched]
    exact List.mem_map_of_mem member
  obtain ⟨original, there, same⟩ := List.mem_map.mp listed
  have kept := all original there
  unfold Node.burstable at kept ⊢
  rw [← same]
  exact kept

/-- A move neither adds nor drops an instance. -/
theorem Move.listed (move : Move cfg risks first last) (info : Info) :
    last.listed info = first.listed info := by
  unfold Fleet.listed Fleet.nodes
  cases move with
  | touch running draining =>
      simp only [List.map_append, infos_of_touched running, infos_of_touched draining]
  | arrange same => simp only [List.map_append, List.count_append, (same.map Node.info).count_eq]
  | stop _member _risk => rfl
  | stopped _member => rfl
  | running _member => rfl
  | retire found => simp [found, List.count_cons]; omega
  | repoolBur head _kind _closed => simp [head, List.count_cons]; omega
  | repoolOnD head _kind _closed => simp [head, List.count_cons]; omega
  | startOnD head _weighed _opened => simp [head, Fleet.record, List.count_cons]; omega
  | failOnD head => simp [head, Fleet.record]
  | stopOnD head => simp [head, List.count_cons]; omega
  | reactivate head => simp [head, List.count_cons]; omega
  | startBur head _opened => simp [head, Fleet.record, List.count_cons]; omega
  | failBur head => simp [head, Fleet.record]
  | beginSort idle _risk => simp [Fleet.beginSort, idle]
  | endSort empty =>
      have sorted :=
        ((sortAscending_perm Node.creditBalance first.sorting).map Node.info).count_eq info
      simp [Fleet.endSort, empty, sorted]
  | drainBur head _risk => simp [head, List.count_cons]; omega
  | close _now => rfl

/-- A move files a node under its own kind. -/
theorem Move.typed (move : Move cfg risks first last) (typed : first.Typed) : last.Typed := by
  cases move with
  | touch running draining =>
      exact { typed with
        currBur := kind_of_touched running typed.currBur
        pending := kind_of_touched draining typed.pending }
  | arrange same =>
      exact { typed with pending := fun node member => typed.pending node (same.mem_iff.mp member) }
  | stop _member _risk => exact { typed with }
  | stopped _member => exact { typed with }
  | running _member => exact { typed with }
  | retire found => exact { typed with pending := forall_remove found typed.pending }
  | repoolBur _head kind _closed => exact { typed with bur := forall_snoc typed.bur kind }
  | repoolOnD _head kind _closed => exact { typed with onD := forall_snoc typed.onD kind }
  | startOnD head _weighed _opened =>
      obtain ⟨kind, pool⟩ := forall_uncons head typed.onD
      exact { typed with onD := pool, currOnD := forall_snoc typed.currOnD kind }
  | failOnD head =>
      obtain ⟨kind, pool⟩ := forall_uncons head typed.onD
      exact { typed with onD := List.forall_mem_cons.mpr ⟨kind, pool⟩ }
  | stopOnD head => exact { typed with currOnD := (forall_uncons head typed.currOnD).2 }
  | reactivate head =>
      obtain ⟨kind, rest⟩ := forall_uncons head typed.pending
      exact { typed with pending := rest, currBur := forall_snoc typed.currBur kind }
  | startBur head _opened =>
      obtain ⟨kind, pool⟩ := forall_uncons head typed.bur
      exact { typed with bur := pool, currBur := forall_snoc typed.currBur kind }
  | failBur head =>
      obtain ⟨kind, pool⟩ := forall_uncons head typed.bur
      exact { typed with bur := List.forall_mem_cons.mpr ⟨kind, pool⟩ }
  | beginSort _idle _risk =>
      exact { typed with
        currBur := fun node member => absurd member List.not_mem_nil
        sorting := typed.currBur }
  | endSort _empty =>
      exact { typed with
        currBur := fun node member => typed.sorting node
          ((sortAscending_perm Node.creditBalance first.sorting).mem_iff.mp member)
        sorting := fun node member => absurd member List.not_mem_nil }
  | drainBur head _risk =>
      obtain ⟨kind, rest⟩ := forall_uncons head typed.currBur
      exact { typed with currBur := rest, pending := forall_snoc typed.pending kind }
  | close _now => exact { typed with }

end Moves

/-! ### Runs -/

structure Filed (created : List Info) (fleet : Fleet) : Prop where
  listed : ∀ info, fleet.listed info = created.count info
  typed : fleet.Typed

section Runs

variable {est : Estimator} {cfg : Config} {base : UpstreamBlock} {created : List Info}
  {input : StartInput} {start state : State}

private theorem take_drop_kind {nodes : List Node} {kind : Bool} (count : Nat)
    (all : ∀ node ∈ nodes, node.burstable = kind) :
    (∀ node ∈ nodes.take count, node.burstable = kind) ∧
      ∀ node ∈ nodes.drop count, node.burstable = kind :=
  ⟨fun node member => all node (List.mem_of_mem_take member),
    fun node member => all node (List.mem_of_mem_drop member)⟩

theorem setStartUpNodes_typed {fleet : Fleet} {initOd initBur : Nat}
    (taken : setStartUpNodes (getWikiNodeInfo created) initOd initBur = some fleet) :
    fleet.Typed := by
  have pools := getWikiNodeInfo_pools created
  obtain ⟨_fits, rfl⟩ := setStartUpNodes_eq_some.mp taken
  have onDemand := take_drop_kind initOd pools.onDKind
  have burstable := take_drop_kind initBur pools.burKind
  constructor
  · exact onDemand.2
  · simpa [startedUp, pools.currOnD] using onDemand.1
  · exact burstable.2
  · simpa [startedUp, pools.currBur] using burstable.1
  · simp [startedUp, pools.sorting]
  · simp [startedUp, pools.pending]

/-- The start-up counts only distribute the two pools. -/
theorem setStartUpNodes_pools {fleet : Fleet} {initOd initBur : Nat}
    (taken : setStartUpNodes (getWikiNodeInfo created) initOd initBur = some fleet) (info : Info) :
    fleet.listed info = ((getWikiNodeInfo created).onD.map Node.info).count info +
      ((getWikiNodeInfo created).bur.map Node.info).count info := by
  have pools := getWikiNodeInfo_pools created
  obtain ⟨_fits, rfl⟩ := setStartUpNodes_eq_some.mp taken
  have onDparts := congrArg (List.count info)
    (congrArg (List.map Node.info) (List.take_append_drop initOd (getWikiNodeInfo created).onD))
  have burParts := congrArg (List.count info)
    (congrArg (List.map Node.info) (List.take_append_drop initBur (getWikiNodeInfo created).bur))
  rw [List.map_append, List.count_append] at onDparts burParts
  simp only [Fleet.listed, Fleet.nodes, startedUp, pools.currOnD, pools.currBur, pools.sorting,
    pools.pending, pools.stopped, List.nil_append, List.append_nil, List.map_append,
    List.count_append]
  omega

theorem setStartUpNodes_listed {fleet : Fleet} {initOd initBur : Nat}
    (fileable : ∀ info ∈ created, info.Fileable)
    (taken : setStartUpNodes (getWikiNodeInfo created) initOd initBur = some fleet) (info : Info) :
    fleet.listed info = created.count info := by
  have pools := getWikiNodeInfo_pools created
  have parts := (List.filter_append_perm (fun info => Info.burstable info) created).count_eq info
  rw [List.count_append] at parts
  rw [setStartUpNodes_pools taken, pools.onD, pools.bur fileable]
  omega

/-- Types that are filed nowhere are missing, but nothing is listed twice. -/
theorem setStartUpNodes_ids_nodup {fleet : Fleet} {initOd initBur : Nat}
    (distinct : (created.map Info.instanceId).Nodup)
    (taken : setStartUpNodes (getWikiNodeInfo created) initOd initBur = some fleet) :
    (fleet.nodes.map Node.id).Nodup := by
  have pools := getWikiNodeInfo_pools created
  have whole : (fleet.nodes.map Node.info).Perm
      ((getWikiNodeInfo created).bur.map Node.info ++
        (getWikiNodeInfo created).onD.map Node.info) := by
    rw [List.perm_iff_count]
    intro info
    have count := setStartUpNodes_pools taken info
    unfold Fleet.listed at count
    rw [List.count_append]
    omega
  have within : ((getWikiNodeInfo created).bur.map Node.info ++
      (getWikiNodeInfo created).onD.map Node.info).Subperm created := by
    rw [pools.onD]
    exact (pools.burSub.append (List.Sublist.refl _)).subperm.trans
      (List.filter_append_perm (fun info => Info.burstable info) created).subperm
  obtain ⟨kept, same, sublist⟩ := whole.subperm.trans within
  have ids := (same.map Info.instanceId).nodup_iff.mp ((sublist.map Info.instanceId).nodup distinct)
  rw [List.map_map] at ids
  exact ids

theorem launched_infos {fleet : Fleet} (launched : Launched cfg fleet start) (info : Info) :
    start.fleet.listed info = fleet.listed info := by
  obtain ⟨burCost, ondCost, lists⟩ := launched.lists
  rw [lists]
  simp [Fleet.listed, Fleet.nodes, List.map_map, Function.comp_def]

private theorem launched_typed {fleet : Fleet} (launched : Launched cfg fleet start)
    (typed : fleet.Typed) : start.fleet.Typed := by
  obtain ⟨burCost, ondCost, lists⟩ := launched.lists
  rw [lists]
  refine { typed with currOnD := ?_, currBur := ?_ }
  · intro node member
    obtain ⟨original, there, rfl⟩ := List.mem_map.mp member
    exact typed.currOnD original there
  · intro node member
    obtain ⟨original, there, rfl⟩ := List.mem_map.mp member
    exact typed.currBur original there

private theorem ids_perm {first last : Fleet}
    (same : ∀ info, last.listed info = first.listed info) :
    (last.nodes.map Node.id).Perm (first.nodes.map Node.id) := by
  have ids := (List.perm_iff_count.mpr same).map Info.instanceId
  rw [List.map_map, List.map_map] at ids
  exact ids

theorem Move.ids_nodup {risks : Risk → Prop} {first last : Fleet}
    (move : Move cfg risks first last) (distinct : (first.nodes.map Node.id).Nodup) :
    (last.nodes.map Node.id).Nodup :=
  (ids_perm move.listed).nodup_iff.mpr distinct

theorem startUp_typed (started : startUp cfg base created input = some start) :
    start.fleet.Typed := by
  obtain ⟨fleet, taken, launched⟩ := startUp_launched started
  exact launched_typed launched (setStartUpNodes_typed taken)

theorem reach_typed {allowed : State → Act → Prop}
    (started : startUp cfg base created input = some start)
    (reach : Reach (step est cfg) allowed start state) : state.fleet.Typed := by
  refine reach_fleet (fun _risk => True) (fun _ _ _ _ _ => trivial) started reach Fleet.Typed
    (startUp_typed started) ?_
  intro first last move typed
  exact move.typed typed

theorem reach_listed {allowed : State → Act → Prop}
    (started : startUp cfg base created input = some start)
    (reach : Reach (step est cfg) allowed start state) (info : Info) :
    state.fleet.listed info = start.fleet.listed info := by
  refine reach_fleet (fun _risk => True) (fun _ _ _ _ _ => trivial) started reach
    (fun fleet => fleet.listed info = start.fleet.listed info) rfl ?_
  intro first last move listed
  rw [move.listed info, listed]

theorem reach_filed {allowed : State → Act → Prop} (fileable : ∀ info ∈ created, info.Fileable)
    (started : startUp cfg base created input = some start)
    (reach : Reach (step est cfg) allowed start state) : Filed created state.fleet := by
  obtain ⟨fleet, taken, launched⟩ := startUp_launched started
  refine ⟨fun info => ?_, reach_typed started reach⟩
  rw [reach_listed started reach, launched_infos launched, setStartUpNodes_listed fileable taken]

theorem startUp_ids_nodup (distinct : (created.map Info.instanceId).Nodup)
    (started : startUp cfg base created input = some start) :
    (start.fleet.nodes.map Node.id).Nodup := by
  obtain ⟨fleet, taken, launched⟩ := startUp_launched started
  exact (ids_perm (launched_infos launched)).nodup_iff.mpr
    (setStartUpNodes_ids_nodup distinct taken)

theorem reach_ids_nodup {allowed : State → Act → Prop}
    (distinct : (created.map Info.instanceId).Nodup)
    (started : startUp cfg base created input = some start)
    (reach : Reach (step est cfg) allowed start state) : (state.fleet.nodes.map Node.id).Nodup :=
  (ids_perm (reach_listed started reach)).nodup_iff.mpr (startUp_ids_nodup distinct started)

end Runs

/-! ### Each instance once -/

section Once

variable {created : List Info} {fleet : Fleet} {info : Info}

theorem Filed.infos (filed : Filed created fleet) : (fleet.nodes.map Node.info).Perm created :=
  List.perm_iff_count.mpr filed.listed

theorem Filed.ids (filed : Filed created fleet) :
    (fleet.nodes.map Node.id).Perm (created.map Info.instanceId) := by
  have mapped := filed.infos.map Info.instanceId
  rw [List.map_map] at mapped
  exact mapped

theorem Filed.info_mem (filed : Filed created fleet) {node : Node} (member : node ∈ fleet.nodes) :
    node.info ∈ created :=
  filed.infos.mem_iff.mp (List.mem_map_of_mem member)

/-- The lists of the other kind do not hold an instance. -/
theorem Filed.absent (filed : Filed created fleet)
    (distinct : (created.map Info.instanceId).Nodup) (member : info ∈ created) {nodes : List Node}
    (within : ∀ node ∈ nodes, node ∈ fleet.nodes)
    (other : ∀ node ∈ nodes, node.burstable ≠ info.burstable) :
    info.instanceId ∉ nodes.map Node.id := by
  intro listed
  obtain ⟨node, there, same⟩ := List.mem_map.mp listed
  have created := filed.info_mem (within node there)
  have equal : node.info = info := List.inj_on_of_nodup_map distinct created member same
  exact other node there (congrArg Info.burstable equal)

theorem Filed.count_ids (filed : Filed created fleet)
    (distinct : (created.map Info.instanceId).Nodup) (member : info ∈ created) :
    (fleet.nodes.map Node.id).count info.instanceId = 1 := by
  rw [filed.ids.count_eq]
  exact List.count_eq_one_of_mem distinct (List.mem_map_of_mem member)

/-- A burstable instance is once in the lists of its kind or among the stopped
ones, an on-demand instance likewise, and neither is in a list of the other. -/
def FiledOnce (created : List Info) (fleet : Fleet) : Prop :=
  ∀ info ∈ created,
    (info.burstable = true →
      ((fleet.bur ++ fleet.currBur ++ fleet.stoppedInstancesPending ++
        fleet.stoppedInstances).map Node.id).count info.instanceId = 1 ∧
      info.instanceId ∉ (fleet.onD ++ fleet.currOnD).map Node.id) ∧
    (info.burstable = false →
      ((fleet.onD ++ fleet.currOnD ++ fleet.stoppedInstances).map Node.id).count
        info.instanceId = 1 ∧
      info.instanceId ∉
        (fleet.bur ++ fleet.currBur ++ fleet.stoppedInstancesPending).map Node.id)

theorem Filed.once (filed : Filed created fleet) (distinct : (created.map Info.instanceId).Nodup)
    (idle : fleet.sorting = []) : FiledOnce created fleet := by
  intro info member
  have total := filed.count_ids distinct member
  simp only [Fleet.nodes, idle, List.append_nil, List.map_append, List.count_append] at total
  constructor
  · intro kind
    have absent : info.instanceId ∉ (fleet.onD ++ fleet.currOnD).map Node.id := by
      apply filed.absent distinct member
      · intro node there
        simp only [Fleet.nodes, List.mem_append] at there ⊢
        tauto
      · intro node there
        rw [kind]
        rcases List.mem_append.mp there with pool | running
        · simp [filed.typed.onD node pool]
        · simp [filed.typed.currOnD node running]
    have none := List.count_eq_zero.mpr absent
    simp only [List.map_append, List.count_append] at none ⊢
    exact ⟨by omega, by simpa using absent⟩
  · intro kind
    have absent : info.instanceId ∉
        (fleet.bur ++ fleet.currBur ++ fleet.stoppedInstancesPending).map Node.id := by
      apply filed.absent distinct member
      · intro node there
        simp only [Fleet.nodes, List.mem_append] at there ⊢
        tauto
      · intro node there
        rw [kind]
        rcases List.mem_append.mp there with active | pending
        · rcases List.mem_append.mp active with pool | running
          · simp [filed.typed.bur node pool]
          · simp [filed.typed.currBur node running]
        · simp [filed.typed.pending node pending]
    have none := List.count_eq_zero.mpr absent
    simp only [List.map_append, List.count_append] at none ⊢
    exact ⟨by omega, by simpa using absent⟩

end Once

theorem setStartUpNodes_isSome {created : List Info} {initOd initBur : Nat}
    (fileable : ∀ info ∈ created, info.Fileable)
    (onDfits : initOd ≤ (created.filter fun info => !info.burstable).length)
    (burFits : initBur ≤ (created.filter fun info => info.burstable).length) :
    ∃ fleet, setStartUpNodes (getWikiNodeInfo created) initOd initBur = some fleet := by
  have pools := getWikiNodeInfo_pools created
  rw [← pools.onD, List.length_map] at onDfits
  rw [← pools.bur fileable, List.length_map] at burFits
  exact ⟨_, setStartUpNodes_eq_some.mpr ⟨⟨onDfits, burFits⟩, rfl⟩⟩

/-- Start-up counts within the pools: the lists are right after the start-up and
in every state of every run, whatever the estimator answers, except for the
items that `curr_bur.sort` holds while it runs. -/
theorem instances_filed_once (est : Estimator) (cfg : Config) (base : UpstreamBlock)
    (created : List Info) (input : StartInput)
    (distinct : (created.map Info.instanceId).Nodup)
    (fileable : ∀ info ∈ created, info.Fileable)
    (onDfits : cfg.onDnodes ≤ (created.filter fun info => !info.burstable).length)
    (burFits : cfg.burNodes ≤ (created.filter fun info => info.burstable).length) :
    (∃ fleet, setStartUpNodes (getWikiNodeInfo created) cfg.onDnodes cfg.burNodes = some fleet ∧
      FiledOnce created fleet) ∧
    ∀ start state, startUp cfg base created input = some start →
      Reach (step est cfg) (fun _ _ => True) start state →
      state.main.isSorting = false →
      FiledOnce created state.fleet := by
  constructor
  · obtain ⟨fleet, taken⟩ := setStartUpNodes_isSome fileable onDfits burFits
    have filed : Filed created fleet :=
      ⟨setStartUpNodes_listed fileable taken, setStartUpNodes_typed taken⟩
    exact ⟨fleet, taken, filed.once distinct (setStartUpNodes_sorting taken)⟩
  · intro start state started reach outside
    have held := reach_sortHeld started reach
    exact (reach_filed fileable started reach).once distinct (held.outside outside)

/-! ### A sample experiment -/

/-- One on-demand node, not running at first, and two burstable ones. The two
logarithms and powers that occur are those of 100 and 1000. -/
def sampleConfig : Config :=
  { H := 1000, L := 100, onDnodes := 0, burNodes := 2, initWeight := 100
    meanSLO := 7, P := 1, D := 2, potentialIncreaseFactor := 11 / 10, desiredLoad := 4 / 5
    P_m := 1, D_m := 1 / 5, desiredCredit := 60
    throughputTable :=
      [("0", [("1", some 100), ("2", some 200)]), ("1", [("1", some 300), ("2", some 400)])]
    log10 := fun value => if value < 1000 then 2 else 3
    pow10 := fun value => if value < 3 then 100 else 1000 }

def sampleCreated : List Info :=
  [⟨"i-01", "m5.large", "172.31.0.1"⟩, ⟨"i-02", "t3.large", "172.31.0.2"⟩,
    ⟨"i-03", "t3.large", "172.31.0.3"⟩]

def sampleStart (cfg : Config) : Option State :=
  startUp cfg ⟨"least_conn", []⟩ sampleCreated ⟨true, true, some 0, fun _ => 0⟩

def sampleMain : Act :=
  .main ⟨fun _ => [⟨"12:00", 50⟩], fun _ => 0, fun _ => 1, some 101, 1⟩

def sampleShort (latency : Latency) : Act := .short ⟨latency, true⟩

def sampleRun (cfg : Config) (allowed : State → Act → Prop)
    [∀ state action, Decidable (allowed state action)] (actions : List Act) : Option State :=
  (sampleStart cfg).bind fun start =>
    run (guarded (step (policies cfg) cfg) allowed) start actions

theorem sampleRun_reach {cfg : Config} {allowed : State → Act → Prop}
    [∀ state action, Decidable (allowed state action)] {actions : List Act} {state : State}
    (ran : sampleRun cfg allowed actions = some state) :
    ∃ start, sampleStart cfg = some start ∧
      Reach (step (policies cfg) cfg) allowed start state := by
  obtain ⟨start, started, taken⟩ := Option.bind_eq_some_iff.mp ran
  exact ⟨start, started, reach_of_guarded_run taken⟩

/-- After eleven steps of the main thread the on-demand node has been started. -/
theorem instances_filed_once_sample :
    ∃ state, sampleRun sampleConfig (fun _ _ => True) (List.replicate 11 sampleMain) = some state ∧
      state.fleet.currOnD.map Node.id = ["i-01"] ∧ FiledOnce sampleCreated state.fleet := by
  have lists : (sampleRun sampleConfig (fun _ _ => True) (List.replicate 11 sampleMain)).map
      (fun state => (state.main, state.fleet.currOnD.map Node.id)) =
        some (.blockOnD 0 1 1, ["i-01"]) := by decide +kernel
  obtain ⟨state, ran, same⟩ := Option.map_eq_some_iff.mp lists
  obtain ⟨main, running⟩ := Prod.mk.inj same
  obtain ⟨start, started, reach⟩ := sampleRun_reach ran
  refine ⟨state, ran, running, ?_⟩
  exact (instances_filed_once (policies sampleConfig) sampleConfig ⟨"least_conn", []⟩ sampleCreated
    ⟨true, true, some 0, fun _ => 0⟩ (by decide) (by decide) (by decide) (by decide)).2 start state
    started reach (by rw [main]; rfl)

end AutoBurst.Controller
