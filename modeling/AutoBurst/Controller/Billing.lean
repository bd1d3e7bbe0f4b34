/-
The cost ledgers over whole runs. Whatever the two threads do, each ledger and
the pool of its kind change together, one instance at a time, so an instance is
billed exactly while it is out of the pools; the end of the run closes the rest.
-/

import AutoBurst.Controller.Books
import AutoBurst.Controller.Conservation

namespace AutoBurst.Controller

open Runs

def Fleet.burBook (fleet : Fleet) : Book := ⟨fleet.bur.map Node.id, fleet.burCost⟩

def Fleet.ondBook (fleet : Fleet) : Book := ⟨fleet.onD.map Node.id, fleet.ondCost⟩

def Fleet.Pooled (fleet : Fleet) (info : Info) : Prop :=
  info.instanceId ∈ (fleet.onD ++ fleet.bur).map Node.id

def Fleet.entries (fleet : Fleet) (info : Info) : Option (List CostEntry) :=
  if info.burstable then fleet.burCost info.instanceId else fleet.ondCost info.instanceId

/-- An instance on its way back is in no pool. -/
theorem not_pooled_of_stopped {fleet : Fleet} (distinct : (fleet.nodes.map Node.id).Nodup)
    {node : Node} (member : node ∈ fleet.stoppedInstances) : ¬fleet.Pooled node.info := by
  intro pooled
  have total := List.nodup_iff_count_le_one.mp distinct node.id
  have here := List.count_pos_iff.mpr (List.mem_map_of_mem (f := Node.id) member)
  have there := List.count_pos_iff.mpr pooled
  change 0 < ((fleet.onD ++ fleet.bur).map Node.id).count node.id at there
  simp only [Fleet.nodes, List.map_append, List.count_append] at total there
  omega

/-! ### Stages -/

section Stages

variable {burIds onDIds : List String} {now : String → Int}

structure Booked (burIds onDIds : List String) (now : String → Int) (before after : Fleet) :
    Prop where
  bur : BookSteps burIds now before.burBook after.burBook
  onD : BookSteps onDIds now before.ondBook after.ondBook

theorem Booked.same {before after : Fleet} (bur : after.burBook = before.burBook)
    (onD : after.ondBook = before.ondBook) : Booked burIds onDIds now before after := by
  constructor
  · rw [bur]
  · rw [onD]

theorem startOnD_booked (od : Int) (pool : List Node) (fleet : Fleet)
    (whole : fleet.onD = pool) :
    Booked burIds onDIds now fleet (Fleet.startOnD now od pool fleet).fleet := by
  induction pool generalizing fleet with
  | nil => exact ⟨.refl, .refl⟩
  | cons node pool ih =>
      unfold Fleet.startOnD
      have listed : fleet.ondBook.pool = node.id :: pool.map Node.id := by
        change fleet.onD.map Node.id = _
        rw [whole, List.map_cons]
      split
      · split
        · refine Booked.same rfl ?_
          change (⟨node.id :: pool.map Node.id, fleet.ondCost⟩ : Book) = fleet.ondBook
          rw [← listed]
          rfl
        · rename_i ondCost opened
          have rest := ih { fleet.record (.startInstance node.id) with
            onD := pool
            currOnD := fleet.currOnD ++ [{ node with weight := fleet.onDweight }]
            ondCost := ondCost } rfl
          exact ⟨rest.bur, .head (.opens listed opened) rest.onD⟩
      · exact ⟨.refl, .refl⟩

theorem startBur_booked (L b : Int) (pool : List Node) (fleet : Fleet)
    (whole : fleet.bur = pool) :
    Booked burIds onDIds now fleet (Fleet.startBur now L b pool fleet).fleet := by
  induction pool generalizing fleet with
  | nil => exact ⟨.refl, .refl⟩
  | cons node pool ih =>
      unfold Fleet.startBur
      have listed : fleet.burBook.pool = node.id :: pool.map Node.id := by
        change fleet.bur.map Node.id = _
        rw [whole, List.map_cons]
      split
      · split
        · refine Booked.same ?_ rfl
          change (⟨node.id :: pool.map Node.id, fleet.burCost⟩ : Book) = fleet.burBook
          rw [← listed]
          rfl
        · rename_i burCost opened
          have rest := ih { fleet.record (.startInstance node.id) with
            bur := pool
            currBur := fleet.currBur ++ [{ node with weight := L }]
            burCost := burCost } rfl
          exact ⟨.head (.opens listed opened) rest.bur, rest.onD⟩
      · exact ⟨.refl, .refl⟩

theorem reactivate_books (L b : Int) (draining : List Node) (fleet : Fleet) :
    (Fleet.reactivate L b draining fleet).burBook = fleet.burBook ∧
      (Fleet.reactivate L b draining fleet).ondBook = fleet.ondBook := by
  induction draining generalizing fleet with
  | nil => exact ⟨rfl, rfl⟩
  | cons node rest ih =>
      unfold Fleet.reactivate
      split
      · exact ih _
      · exact ⟨rfl, rfl⟩

theorem scaleUpBur_booked (credit : String → Rat) (L b : Int) (fleet : Fleet) :
    Booked burIds onDIds now fleet (fleet.scaleUpBur now credit L b).fleet := by
  have started : ∀ pending, Booked burIds onDIds now
      (Fleet.reactivate L b pending { fleet with stoppedInstancesPending := pending })
      (Fleet.startBur now L b _
        (Fleet.reactivate L b pending { fleet with stoppedInstancesPending := pending })).fleet :=
    fun pending => startBur_booked L b _ _ rfl
  obtain ⟨bur, onD⟩ := started (sortDescending Node.creditBalance
    (fleet.stoppedInstancesPending.map (readCredit credit)))
  rw [(reactivate_books L b _ _).1] at bur
  rw [(reactivate_books L b _ _).2] at onD
  exact ⟨bur, onD⟩

theorem stopOnD_books (od : Int) (running : List Node) (fleet : Fleet) :
    (Fleet.stopOnD od running fleet).fleet.burBook = fleet.burBook ∧
      (Fleet.stopOnD od running fleet).fleet.ondBook = fleet.ondBook := by
  induction running generalizing fleet with
  | nil => exact ⟨rfl, rfl⟩
  | cons node rest ih =>
      unfold Fleet.stopOnD
      split
      · exact ih _
      · exact ⟨rfl, rfl⟩

theorem drainBur_books (b : Int) (running : List Node) (fleet : Fleet) :
    (Fleet.drainBur b running fleet).burBook = fleet.burBook ∧
      (Fleet.drainBur b running fleet).ondBook = fleet.ondBook := by
  induction running generalizing fleet with
  | nil => exact ⟨rfl, rfl⟩
  | cons node rest ih =>
      unfold Fleet.drainBur
      split
      · exact ih _
      · exact ⟨rfl, rfl⟩

theorem readCreditAt_books {fleet after : Fleet} {index : Nat} {credit : String → Rat}
    {value : Rat} (read : fleet.readCreditAt index credit = some (after, value)) :
    after.burBook = fleet.burBook ∧ after.ondBook = fleet.ondBook := by
  unfold Fleet.readCreditAt at read
  split at read
  · obtain ⟨rfl, _value⟩ := Prod.mk.inj (Option.some.inj read)
    exact ⟨rfl, rfl⟩
  · obtain ⟨node, _found, same⟩ := Option.map_eq_some_iff.mp read
    obtain ⟨rfl, _value⟩ := Prod.mk.inj same
    exact ⟨rfl, rfl⟩

structure Fleet.Stocked (burIds onDIds : List String) (fleet : Fleet) : Prop where
  bur : ∀ node ∈ fleet.stoppedInstances, node.burstable = true →
    node.id ∈ burIds ∧ node.id ∉ fleet.burBook.pool
  onD : ∀ node ∈ fleet.stoppedInstances, node.burstable = false →
    node.id ∈ onDIds ∧ node.id ∉ fleet.ondBook.pool

theorem repool_booked {fleet after : Fleet} (stocked : fleet.Stocked burIds onDIds)
    (repooled : fleet.repool now = some after) : Booked burIds onDIds now fleet after := by
  unfold Fleet.repool at repooled
  split at repooled
  · cases repooled
  · rename_i node rest first
    have member : node ∈ fleet.stoppedInstances := by
      rw [first]
      exact List.mem_cons_self
    split at repooled
    · rename_i kind
      obtain ⟨burCost, closed, rfl⟩ := Option.map_eq_some_iff.mp repooled
      obtain ⟨known, outside⟩ := stocked.bur node member kind
      have step := BookStep.closes known outside closed
      refine ⟨.single ?_, .refl⟩
      change BookStep burIds now fleet.burBook ⟨(fleet.bur ++ [node]).map Node.id, burCost⟩
      rw [List.map_append]
      exact step
    · rename_i kind
      obtain ⟨ondCost, closed, rfl⟩ := Option.map_eq_some_iff.mp repooled
      obtain ⟨known, outside⟩ := stocked.onD node member (Bool.eq_false_iff.mpr kind)
      have step := BookStep.closes known outside closed
      refine ⟨.refl, .single ?_⟩
      change BookStep onDIds now fleet.ondBook ⟨(fleet.onD ++ [node]).map Node.id, ondCost⟩
      rw [List.map_append]
      exact step

end Stages

/-! ### Steps -/

section Steps

variable {est : Estimator} {cfg : Config} {before after : State} {burIds onDIds : List String}

structure MainBooked (burIds onDIds : List String) (now : String → Int)
    (before after : State) : Prop where
  booked : Booked burIds onDIds now before.fleet after.fleet
  running : after.main ≠ .done

private def MainPc.isDone : MainPc → Bool
  | .done => true
  | _ => false

private theorem MainPc.ne_done {main : MainPc} (running : main.isDone = false) : main ≠ .done := by
  intro done
  rw [done] at running
  cases running

private theorem MainBooked.same {now : String → Int}
    (bur : after.fleet.burBook = before.fleet.burBook)
    (onD : after.fleet.ondBook = before.fleet.ondBook) (running : after.main.isDone = false) :
    MainBooked burIds onDIds now before after :=
  ⟨.same bur onD, MainPc.ne_done running⟩

theorem mainStep_booked {input : MainInput} (taken : mainStep est cfg input before = some after)
    (unfinished : before.main ≠ .finish) (stocked : before.fleet.Stocked burIds onDIds) :
    MainBooked burIds onDIds input.now before after := by
  unfold mainStep at taken
  cases here : before.main <;> rw [here] at taken <;> cases taken
  case loopHead => split <;> exact .same rfl rfl rfl
  case drainCheck j left =>
    cases left with
    | zero => exact .same rfl rfl rfl
    | succ left =>
        simp only [drainCheck]
        split
        · exact .same rfl rfl rfl
        · split <;> exact .same rfl rfl rfl
  case drainMove j left =>
    unfold drainMove
    split
    · exact .same rfl rfl rfl
    · rename_i fleet retired
      obtain ⟨node, _found, rfl⟩ := Option.map_eq_some_iff.mp retired
      exact .same rfl rfl rfl
  case stopIssue i lenStopped =>
    unfold stopIssue
    split
    · split <;> exact .same rfl rfl rfl
    · exact .same rfl rfl rfl
  case stopBlock i lenStopped =>
    unfold stopBlock
    split
    · split <;> exact .same rfl rfl rfl
    · exact .same rfl rfl rfl
  case repool left =>
    cases left with
    | zero => exact .same rfl rfl rfl
    | succ left =>
        simp only [repool]
        split
        · exact .same rfl rfl rfl
        · rename_i fleet repooled
          exact ⟨repool_booked stocked repooled, MainPc.ne_done rfl⟩
  case rate =>
    unfold measureRate
    split
    · exact .same rfl rfl rfl
    · dsimp only
      split <;> exact .same rfl rfl rfl
  case creditTotal index total throughput =>
    unfold creditTotal
    split
    · exact .same rfl rfl rfl
    · rename_i fleet credit read
      obtain ⟨bur, onD⟩ := readCreditAt_books read
      exact .same bur onD rfl
  case estimate total throughput =>
    unfold estimate
    split <;> exact .same rfl rfl rfl
  case scaleOnD od b =>
    unfold scaleOnD
    split
    · dsimp only
      split <;> exact ⟨startOnD_booked od _ _ rfl, MainPc.ne_done rfl⟩
    · split
      · obtain ⟨bur, onD⟩ := stopOnD_books od before.fleet.currOnD before.fleet
        refine .same bur onD ?_
        dsimp only
        split <;> rfl
      · exact .same rfl rfl rfl
  case blockOnD i stop b =>
    unfold blockOnD
    split
    · split <;> exact .same rfl rfl rfl
    · exact .same rfl rfl rfl
  case scaleBur b =>
    unfold scaleBur
    split
    · dsimp only
      split <;> exact ⟨scaleUpBur_booked input.credit cfg.L b before.fleet, MainPc.ne_done rfl⟩
    · split <;> exact .same rfl rfl rfl
  case blockBur i stop =>
    unfold blockBur
    split
    · split <;> exact .same rfl rfl rfl
    · exact .same rfl rfl rfl
  case sortStart b => exact .same rfl rfl rfl
  case sorting b => exact .same rfl rfl rfl
  case drainPick b =>
    obtain ⟨bur, onD⟩ := drainBur_books b before.fleet.currBur before.fleet
    exact .same bur onD rfl
  case sleep => exact .same rfl rfl rfl
  case finalWait =>
    split
    · exact .same rfl rfl (by rw [here]; rfl)
    · exact .same rfl rfl rfl
  case finish => exact absurd here unfinished

end Steps

/-! ### The initial cost update -/

theorem openAll_eq {now : String → Int} {nodes : List Node} {ledger after : Ledger}
    (distinct : (nodes.map Node.id).Nodup) (opened : openAll now nodes ledger = some after)
    (id : String) :
    after id = if id ∈ nodes.map Node.id
      then (ledger id).map (fun entries => entries ++ [⟨some (now id), none⟩])
      else ledger id := by
  induction nodes generalizing ledger with
  | nil =>
      cases opened
      rfl
  | cons node rest ih =>
      obtain ⟨middle, first, later⟩ := Option.bind_eq_some_iff.mp opened
      obtain ⟨entries, found, rfl⟩ := Option.map_eq_some_iff.mp first
      rw [List.map_cons, List.nodup_cons] at distinct
      rw [ih distinct.2 later, List.map_cons]
      by_cases here : id = node.id
      · subst here
        rw [if_neg distinct.1, if_pos List.mem_cons_self, found]
        exact Function.update_self _ _ _
      · have kept : ledger.set node.id (entries ++ [⟨some (now node.id), none⟩]) id = ledger id :=
          Function.update_of_ne here _ _
        have same : id ∈ node.id :: rest.map Node.id ↔ id ∈ rest.map Node.id :=
          ⟨fun member => (List.mem_cons.mp member).resolve_left here, List.mem_cons_of_mem _⟩
        rw [kept, if_congr same rfl rfl]

/-- The first `count` nodes of a pool taken out and opened, over new ledgers. -/
theorem kept_start {now : String → Int} {pool taken : List Node} {count : Nat} {ledger : Ledger}
    (distinct : (pool.map Node.id).Nodup)
    (same : taken.map Node.id = (pool.take count).map Node.id)
    (opened : openAll now taken (freshLedger pool) = some ledger) :
    (⟨(pool.drop count).map Node.id, ledger⟩ : Book).Kept (pool.map Node.id) now := by
  have split : pool.map Node.id =
      (pool.take count).map Node.id ++ (pool.drop count).map Node.id := by
    rw [← List.map_append, List.take_append_drop]
  have parts := distinct
  rw [split, List.nodup_append] at parts
  have found := openAll_eq (same ▸ parts.1) opened
  rw [same] at found
  have fresh : ∀ id ∈ pool.map Node.id, freshLedger pool id = some [] :=
    fun id member => if_pos member
  refine ⟨parts.2.1, ?_, ?_, ?_⟩
  · intro id member
    rw [split]
    exact List.mem_append_right _ member
  · intro id member
    refine ⟨[], ?_, closed_nil _⟩
    change ledger id = some []
    rw [found id, if_neg (fun early => parts.2.2 id early id member rfl)]
    exact fresh id (by rw [split]; exact List.mem_append_right _ member)
  · intro id known outside
    refine ⟨[⟨some (now id), none⟩], ?_, (closed_nil _).opened⟩
    have early : id ∈ (pool.take count).map Node.id := by
      rw [split] at known
      exact (List.mem_append.mp known).resolve_right outside
    change ledger id = some _
    rw [found id, if_pos early, fresh id known]
    rfl

/-! ### Runs with a clock -/

def observeClock (_before : State) (action : Act) (_after : State) (clock : String → Int) :
    String → Int :=
  match action with
  | .main input => input.now
  | .short _input => clock
  | .clientDone => clock

def Forward (tracked : State × (String → Int)) : Act → Prop
  | .main input => ∀ id, tracked.2 id ≤ input.now id
  | .short _input => True
  | .clientDone => True

def idsOfKind (created : List Info) (kind : Bool) : List String :=
  (created.filter fun info => info.burstable == kind).map Info.instanceId

structure Accounts (created : List Info) (clock : String → Int) (fleet : Fleet) : Prop where
  bur : fleet.burBook.Kept (idsOfKind created true) clock
  onD : fleet.ondBook.Kept (idsOfKind created false) clock

def Settlement (created : List Info) (clock : String → Int) (fleet : Fleet) : Prop :=
  (∀ id ∈ idsOfKind created true, ∃ entries, fleet.burCost id = some entries ∧
      Closed (clock id) entries) ∧
    ∀ id ∈ idsOfKind created false, ∃ entries, fleet.ondCost id = some entries ∧
      Closed (clock id) entries

section Runs

variable {est : Estimator} {cfg : Config} {base : UpstreamBlock} {created : List Info}
  {input : StartInput} {start state : State}

private theorem mem_idsOfKind {kind : Bool} {id : String} :
    id ∈ idsOfKind created kind ↔
      ∃ info ∈ created, info.burstable = kind ∧ info.instanceId = id := by
  unfold idsOfKind
  simp only [List.mem_map, List.mem_filter, beq_iff_eq, and_assoc]

private theorem idsOfKind_nodup (distinct : (created.map Info.instanceId).Nodup) (kind : Bool) :
    (idsOfKind created kind).Nodup :=
  (List.filter_sublist.map Info.instanceId).nodup distinct

private theorem pool_ids (fileable : ∀ info ∈ created, info.Fileable) :
    (getWikiNodeInfo created).bur.map Node.id = idsOfKind created true ∧
      (getWikiNodeInfo created).onD.map Node.id = idsOfKind created false := by
  have pools := getWikiNodeInfo_pools created
  have ids : ∀ nodes : List Node, nodes.map Node.id = (nodes.map Node.info).map Info.instanceId :=
    fun nodes => (List.map_map).symm
  unfold idsOfKind
  rw [ids, ids, pools.bur fileable, pools.onD]
  constructor
  · congr 2
    funext info
    cases info.burstable <;> rfl
  · congr 2
    funext info
    cases info.burstable <;> rfl

private theorem ids_reweighed (nodes : List Node) (weight : Int) :
    (nodes.map fun node => { node with weight := weight }).map Node.id = nodes.map Node.id := by
  rw [List.map_map]
  rfl

theorem startUp_accounts (distinct : (created.map Info.instanceId).Nodup)
    (fileable : ∀ info ∈ created, info.Fileable)
    (started : startUp cfg base created input = some start) :
    Accounts created input.now start.fleet := by
  have pools := getWikiNodeInfo_pools created
  obtain ⟨burPool, onDPool⟩ := pool_ids fileable
  have runningBur : (startedUp (getWikiNodeInfo created) cfg.onDnodes cfg.burNodes).currBur =
      (getWikiNodeInfo created).bur.take cfg.burNodes := by
    simp only [startedUp, pools.currBur, List.nil_append]
  have runningOnD : (startedUp (getWikiNodeInfo created) cfg.onDnodes cfg.burNodes).currOnD =
      (getWikiNodeInfo created).onD.take cfg.onDnodes := by
    simp only [startedUp, pools.currOnD, List.nil_append]
  obtain ⟨fleet, taken, launched⟩ := Option.bind_eq_some_iff.mp started
  obtain ⟨_fits, rfl⟩ := setStartUpNodes_eq_some.mp taken
  obtain ⟨weighted, weights, ledgers⟩ := Option.bind_eq_some_iff.mp launched
  obtain ⟨burCost, openedBur, rest⟩ := Option.bind_eq_some_iff.mp ledgers
  obtain ⟨ondCost, openedOnD, rfl⟩ := Option.map_eq_some_iff.mp rest
  unfold initWeight at weights
  split at weights
  · cases weights
  · cases weights
    constructor
    · have kept := kept_start (burPool ▸ idsOfKind_nodup distinct true)
        ((ids_reweighed _ _).trans (congrArg _ runningBur)) openedBur
      rw [burPool] at kept
      exact kept
    · have kept := kept_start (onDPool ▸ idsOfKind_nodup distinct false)
        ((ids_reweighed _ _).trans (congrArg _ runningOnD)) openedOnD
      rw [onDPool] at kept
      exact kept

theorem reach_stocked {allowed : State → Act → Prop}
    (distinct : (created.map Info.instanceId).Nodup)
    (fileable : ∀ info ∈ created, info.Fileable)
    (started : startUp cfg base created input = some start)
    (reach : Reach (step est cfg) allowed start state) :
    state.fleet.Stocked (idsOfKind created true) (idsOfKind created false) := by
  have filed := reach_filed fileable started reach
  have known : ∀ node ∈ state.fleet.stoppedInstances,
      node.id ∈ idsOfKind created node.burstable := by
    intro node member
    refine mem_idsOfKind.mpr ⟨node.info, filed.info_mem ?_, rfl, rfl⟩
    unfold Fleet.nodes
    exact List.mem_append_right _ member
  have outside : ∀ node ∈ state.fleet.stoppedInstances,
      node.id ∉ state.fleet.onD.map Node.id ∧ node.id ∉ state.fleet.bur.map Node.id := by
    intro node member
    have apart := not_pooled_of_stopped (reach_ids_nodup distinct started reach) member
    unfold Fleet.Pooled at apart
    rw [List.map_append, List.mem_append, not_or] at apart
    exact apart
  constructor
  · intro node member kind
    exact ⟨kind ▸ known node member, (outside node member).2⟩
  · intro node member kind
    exact ⟨kind ▸ known node member, (outside node member).1⟩

structure Billed (created : List Info) (tracked : State × (String → Int)) : Prop where
  open_ : tracked.1.main ≠ .done → Accounts created tracked.2 tracked.1.fleet
  settled : tracked.1.main = .done → Settlement created tracked.2 tracked.1.fleet

theorem Billed.of_mainStep {before after : State} {clock : String → Int} {input : MainInput}
    (billed : Billed created (before, clock))
    (stocked : before.fleet.Stocked (idsOfKind created true) (idsOfKind created false))
    (taken : mainStep est cfg input before = some after)
    (forward : ∀ id, clock id ≤ input.now id) : Billed created (after, input.now) := by
  have running : before.main ≠ .done := (mainStep_running est cfg input before taken).1
  have accounts := billed.open_ running
  have bur := accounts.bur.later forward
  have onD := accounts.onD.later forward
  by_cases finishing : before.main = .finish
  · unfold mainStep at taken
    rw [finishing] at taken
    cases taken
    exact ⟨fun unfinished => absurd rfl unfinished,
      fun _ended => ⟨fun id known => bur.closeOpen known, fun id known => onD.closeOpen known⟩⟩
  · obtain ⟨booked, unfinished⟩ := mainStep_booked taken finishing stocked
    exact ⟨fun _running => ⟨bur.of_steps booked.bur, onD.of_steps booked.onD⟩,
      fun ended => absurd ended unfinished⟩

theorem shortStep_books {before after : State} {input : ShortInput}
    (taken : shortStep cfg before input = some after) :
    after.fleet.burBook = before.fleet.burBook ∧ after.fleet.ondBook = before.fleet.ondBook := by
  obtain ⟨currBur, pending, _running, _draining, same⟩ := (shortStep_effect taken).touched
  rw [same]
  exact ⟨rfl, rfl⟩

theorem reach_billed (distinct : (created.map Info.instanceId).Nodup)
    (fileable : ∀ info ∈ created, info.Fileable)
    (started : startUp cfg base created input = some start)
    {tracked : State × (String → Int)}
    (reach : Reach (monitored (step est cfg) observeClock) Forward (start, input.now) tracked) :
    Billed created tracked := by
  induction reach with
  | start =>
      obtain ⟨fleet, _taken, launched⟩ := startUp_launched started
      refine ⟨fun _running => startUp_accounts distinct fileable started, fun ended => ?_⟩
      have looping : start.main = .done := ended
      rw [launched.main] at looping
      cases looping
  | @next before after action reached permitted taken ih =>
      obtain ⟨stepped, clock⟩ := monitored_eq_some.mp taken
      have stocked := reach_stocked distinct fileable started reached.unmonitored
      obtain ⟨afterState, afterClock⟩ := after
      change afterClock = observeClock before.1 action afterState before.2 at clock
      subst clock
      cases action with
      | main input => exact ih.of_mainStep stocked stepped permitted
      | short input =>
          obtain ⟨bur, onD⟩ := shortStep_books stepped
          have main := (shortStep_effect stepped).main
          obtain ⟨currBur, pending, _running, _draining, same⟩ :=
            (shortStep_effect stepped).touched
          refine ⟨fun running => ?_, fun ended => ?_⟩
          · obtain ⟨burKept, onDKept⟩ := ih.open_ (main ▸ running)
            exact ⟨bur ▸ burKept, onD ▸ onDKept⟩
          · have settled := ih.settled (main ▸ ended)
            unfold Settlement at settled ⊢
            rw [same]
            exact settled
      | clientDone =>
          cases stepped
          exact ⟨ih.open_, ih.settled⟩

/-! ### Lookups -/

theorem openAt_found {ledger opened : Ledger} {id other : String} {now : Int}
    (taken : ledger.openAt id now = some opened) (found : (ledger other).isSome) :
    (opened other).isSome := by
  obtain ⟨entries, _there, rfl⟩ := Option.map_eq_some_iff.mp taken
  by_cases here : other = id
  · subst here
    exact Option.isSome_iff_exists.mpr ⟨_, Function.update_self _ _ _⟩
  · have kept : ledger.set id (entries ++ [⟨some now, none⟩]) other = ledger other :=
      Function.update_of_ne here _ _
    rw [kept]
    exact found

private theorem openAt_of_found {ledger : Ledger} {id : String} (now : Int)
    (found : (ledger id).isSome) : ledger.openAt id now ≠ none := by
  unfold Ledger.openAt
  rw [Ne, Option.map_eq_none_iff]
  exact Option.isSome_iff_ne_none.mp found

theorem startOnD_found {now : String → Int} {od : Int} (pool : List Node) (fleet : Fleet)
    (found : ∀ node ∈ pool, (fleet.ondCost node.id).isSome) :
    (Fleet.startOnD now od pool fleet).raised = false := by
  induction pool generalizing fleet with
  | nil => rfl
  | cons node pool ih =>
      unfold Fleet.startOnD
      split
      · split
        · rename_i failed
          exact absurd failed (openAt_of_found _ (found node List.mem_cons_self))
        · rename_i ondCost opened
          apply ih
          intro other member
          exact openAt_found opened (found other (List.mem_cons_of_mem _ member))
      · rfl

theorem startBur_found {now : String → Int} {L b : Int} (pool : List Node) (fleet : Fleet)
    (found : ∀ node ∈ pool, (fleet.burCost node.id).isSome) :
    (Fleet.startBur now L b pool fleet).raised = false := by
  induction pool generalizing fleet with
  | nil => rfl
  | cons node pool ih =>
      unfold Fleet.startBur
      split
      · split
        · rename_i failed
          exact absurd failed (openAt_of_found _ (found node List.mem_cons_self))
        · rename_i burCost opened
          apply ih
          intro other member
          exact openAt_found opened (found other (List.mem_cons_of_mem _ member))
      · rfl

theorem scaleUpBur_found {now : String → Int} {credit : String → Rat} {L b : Int}
    (fleet : Fleet) (found : ∀ id ∈ fleet.bur.map Node.id, (fleet.burCost id).isSome) :
    (fleet.scaleUpBur now credit L b).raised = false := by
  have started : ∀ pending, (Fleet.startBur now L b
      (Fleet.reactivate L b pending { fleet with stoppedInstancesPending := pending }).bur
      (Fleet.reactivate L b pending { fleet with stoppedInstancesPending := pending })).raised =
        false := by
    intro pending
    have books := (reactivate_books L b pending
      { fleet with stoppedInstancesPending := pending }).1
    obtain ⟨pool, ledger⟩ := Book.mk.inj books
    apply startBur_found
    intro node member
    rw [ledger]
    apply found
    rw [← pool]
    exact List.mem_map_of_mem member
  exact started _

/-- No stage that reads a ledger raises a `KeyError`, whatever it is asked for. -/
structure LookupsFound (fleet : Fleet) : Prop where
  startOnD : ∀ now od, (fleet.startOnD now od fleet.onD).raised = false
  scaleUpBur : ∀ now credit L b, (fleet.scaleUpBur now credit L b).raised = false
  repool : ∀ now, fleet.stoppedInstances ≠ [] → ∃ after, fleet.repool now = some after

private theorem Book.Kept.isSome {ids : List String} {clock : String → Int} {book : Book}
    (kept : book.Kept ids clock) {id : String} (known : id ∈ ids) : (book.ledger id).isSome := by
  obtain ⟨entries, there⟩ := kept.found known
  rw [there]
  rfl

theorem Accounts.lookups {clock : String → Int} {fleet : Fleet}
    (accounts : Accounts created clock fleet)
    (stocked : fleet.Stocked (idsOfKind created true) (idsOfKind created false)) :
    LookupsFound fleet := by
  refine ⟨?_, ?_, ?_⟩
  · intro now od
    apply startOnD_found
    intro node member
    exact accounts.onD.isSome (accounts.onD.known _ (List.mem_map_of_mem member))
  · intro now credit L b
    apply scaleUpBur_found
    intro id member
    exact accounts.bur.isSome (accounts.bur.known id member)
  · intro now nonempty
    unfold Fleet.repool
    split
    · rename_i empty
      exact absurd empty nonempty
    · rename_i node rest first
      have member : node ∈ fleet.stoppedInstances := by
        rw [first]
        exact List.mem_cons_self
      split
      · rename_i kind
        obtain ⟨entries, there⟩ := accounts.bur.found (stocked.bur node member kind).1
        have found : fleet.burCost node.id = some entries := there
        unfold Ledger.closeAt
        rw [found]
        exact ⟨_, rfl⟩
      · rename_i kind
        obtain ⟨entries, there⟩ :=
          accounts.onD.found (stocked.onD node member (Bool.eq_false_iff.mpr kind)).1
        have found : fleet.ondCost node.id = some entries := there
        unfold Ledger.closeAt
        rw [found]
        exact ⟨_, rfl⟩

/-! ### What is billed -/

/-- Every instance has entries in order, closed while it is in a pool and open
while it is not. -/
def Mirrors (created : List Info) (clock : String → Int) (fleet : Fleet) : Prop :=
  ∀ info ∈ created, ∃ entries, fleet.entries info = some entries ∧
    (fleet.Pooled info → Closed (clock info.instanceId) entries) ∧
    (¬fleet.Pooled info → Open (clock info.instanceId) entries)

private theorem Book.Kept.mirrors {ids : List String} {clock : String → Int} {book : Book}
    (kept : book.Kept ids clock) {id : String} (known : id ∈ ids) :
    ∃ entries, book.ledger id = some entries ∧
      (id ∈ book.pool → Closed (clock id) entries) ∧
      (id ∉ book.pool → Open (clock id) entries) := by
  by_cases inside : id ∈ book.pool
  · obtain ⟨entries, there, closed⟩ := kept.pooled id inside
    exact ⟨entries, there, fun _ => closed, fun outside => absurd inside outside⟩
  · obtain ⟨entries, there, isOpen⟩ := kept.active id known inside
    exact ⟨entries, there, fun also => absurd also inside, fun _ => isOpen⟩

theorem Accounts.mirrors {clock : String → Int} {fleet : Fleet}
    (accounts : Accounts created clock fleet) (filed : Filed created fleet)
    (distinct : (created.map Info.instanceId).Nodup) : Mirrors created clock fleet := by
  intro info member
  unfold Fleet.entries Fleet.Pooled
  rw [List.map_append, List.mem_append]
  cases kind : info.burstable with
  | true =>
      have elsewhere : info.instanceId ∉ fleet.onD.map Node.id := by
        apply filed.absent distinct member
        · intro node there
          simp only [Fleet.nodes, List.mem_append]
          tauto
        · intro node there
          simp [filed.typed.onD node there, kind]
      rw [or_iff_right elsewhere, if_pos rfl]
      exact accounts.bur.mirrors (mem_idsOfKind.mpr ⟨info, member, kind, rfl⟩)
  | false =>
      have elsewhere : info.instanceId ∉ fleet.bur.map Node.id := by
        apply filed.absent distinct member
        · intro node there
          simp only [Fleet.nodes, List.mem_append]
          tauto
        · intro node there
          simp [filed.typed.bur node there, kind]
      rw [or_iff_left elsewhere, if_neg Bool.false_ne_true]
      exact accounts.onD.mirrors (mem_idsOfKind.mpr ⟨info, member, kind, rfl⟩)

theorem Settlement.closed {clock : String → Int} {fleet : Fleet}
    (settled : Settlement created clock fleet) {info : Info} (member : info ∈ created) :
    ∃ entries, fleet.entries info = some entries ∧ Closed (clock info.instanceId) entries := by
  unfold Fleet.entries
  cases kind : info.burstable with
  | true =>
      rw [if_pos rfl]
      exact settled.1 _ (mem_idsOfKind.mpr ⟨info, member, kind, rfl⟩)
  | false =>
      rw [if_neg Bool.false_ne_true]
      exact settled.2 _ (mem_idsOfKind.mpr ⟨info, member, kind, rfl⟩)

/-- With a clock that does not go back, from the initial cost update to the
final closing loops each ledger mirrors list membership, no lookup fails and no
entry is made up; after the closing loops every entry is closed. -/
theorem ledger_mirrors_billing (est : Estimator) (cfg : Config) (base : UpstreamBlock)
    (created : List Info) (input : StartInput) (start state : State) (clock : String → Int)
    (distinct : (created.map Info.instanceId).Nodup)
    (fileable : ∀ info ∈ created, info.Fileable)
    (started : startUp cfg base created input = some start)
    (reach : Reach (monitored (step est cfg) observeClock) Forward (start, input.now)
      (state, clock)) :
    (state.main ≠ .done →
      Mirrors created clock state.fleet ∧ LookupsFound state.fleet ∧
        ∀ node ∈ state.fleet.stoppedInstances, ∃ entries,
          state.fleet.entries node.info = some entries ∧ entries ≠ []) ∧
    (state.main = .done → ∀ info ∈ created, ∃ entries,
      state.fleet.entries info = some entries ∧ Closed (clock info.instanceId) entries ∧
        ∀ entry ∈ entries, entry.stop ≠ none) := by
  have billed := reach_billed distinct fileable started reach
  have stocked := reach_stocked distinct fileable started reach.unmonitored
  have filed := reach_filed fileable started reach.unmonitored
  constructor
  · intro running
    have accounts := billed.open_ running
    have mirrors := accounts.mirrors filed distinct
    refine ⟨mirrors, accounts.lookups stocked, ?_⟩
    intro node member
    obtain ⟨entries, there, _closed, isOpen⟩ := mirrors node.info (filed.info_mem (by
      unfold Fleet.nodes
      exact List.mem_append_right _ member))
    exact ⟨entries, there, (isOpen (not_pooled_of_stopped
      (reach_ids_nodup distinct started reach.unmonitored) member)).ne_nil⟩
  · intro ended info member
    obtain ⟨entries, there, closed⟩ := (billed.settled ended).closed member
    exact ⟨entries, there, closed, closed.all⟩

end Runs

private theorem sample_forward {cfg : Config} {actions : List Act} {start state : State}
    {clock : String → Int} (early : ∀ id, clock id ≤ 1)
    (atOne : ∀ action ∈ actions, ∀ input, action = .main input → input.now = fun _ => 1)
    (ran : run (step (policies cfg) cfg) start actions = some state) :
    ∃ later, Reach (monitored (step (policies cfg) cfg) observeClock) Forward (start, clock)
      (state, later) := by
  induction actions generalizing start clock with
  | nil =>
      cases ran
      exact ⟨clock, .start⟩
  | cons action rest ih =>
      obtain ⟨middle, taken, later⟩ := Option.bind_eq_some_iff.mp ran
      obtain ⟨here, others⟩ := List.forall_mem_cons.mp atOne
      have next : ∀ id, observeClock start action middle clock id ≤ 1 := by
        intro id
        cases action with
        | main input =>
            change input.now id ≤ 1
            rw [here input rfl]
        | short input => exact early id
        | clientDone => exact early id
      have forward : Forward (start, clock) action := by
        cases action with
        | main input =>
            intro id
            rw [here input rfl]
            exact early id
        | short input => trivial
        | clientDone => trivial
      obtain ⟨last, reach⟩ := ih next others later
      have first : Reach (monitored (step (policies cfg) cfg) observeClock) Forward
          (start, clock) (middle, observeClock start action middle clock) :=
        Reach.start.next action forward (monitored_eq_some.mpr ⟨taken, rfl⟩)
      exact ⟨last, first.trans reach⟩

/-- The client ends when the on-demand node has been started, and both threads
go on to their ends. -/
def sampleToEnd : List Act :=
  List.replicate 11 sampleMain ++ [.clientDone] ++ List.replicate 9 sampleMain ++
    List.replicate 2 (sampleShort .empty) ++ List.replicate 2 sampleMain

private theorem sampleToEnd_atOne :
    ∀ action ∈ sampleToEnd, ∀ input, action = .main input → input.now = fun _ => 1 := by
  intro action member input same
  subst same
  simp only [sampleToEnd, sampleMain, sampleShort, List.mem_append, List.mem_replicate,
    List.mem_singleton, reduceCtorEq, and_false, or_false, Act.main.injEq] at member
  rcases member with (⟨_, rfl⟩ | ⟨_, rfl⟩) | ⟨_, rfl⟩
  · rfl
  · rfl
  · rfl

/-- The on-demand node is billed from time 1, at which it was started, to the end. -/
theorem ledger_mirrors_billing_sample :
    ∃ start middle state, ∃ before clock : String → Int, sampleStart sampleConfig = some start ∧
      run (step (policies sampleConfig) sampleConfig) start (sampleToEnd.take 11) = some middle ∧
      middle.fleet.ondCost "i-01" = some [⟨some 1, none⟩] ∧
      Mirrors sampleCreated before middle.fleet ∧
      run (step (policies sampleConfig) sampleConfig) start sampleToEnd = some state ∧
      state.fleet.ondCost "i-01" = some [⟨some 1, some 1⟩] ∧
      ∀ info ∈ sampleCreated, ∃ entries,
        state.fleet.entries info = some entries ∧ Closed (clock info.instanceId) entries ∧
          ∀ entry ∈ entries, entry.stop ≠ none := by
  have seen : ((sampleStart sampleConfig).bind fun start =>
      (run (step (policies sampleConfig) sampleConfig) start (sampleToEnd.take 11)).bind
        fun middle => (run (step (policies sampleConfig) sampleConfig) start sampleToEnd).map
          fun state => (middle.fleet.ondCost "i-01", middle.main, state.fleet.ondCost "i-01",
            state.main)) =
      some (some [⟨some 1, none⟩], .blockOnD 0 1 1, some [⟨some 1, some 1⟩], .done) := by
    decide +kernel
  obtain ⟨start, started, ran⟩ := Option.bind_eq_some_iff.mp seen
  obtain ⟨middle, halfway, rest⟩ := Option.bind_eq_some_iff.mp ran
  obtain ⟨state, whole, values⟩ := Option.map_eq_some_iff.mp rest
  obtain ⟨opened, mains⟩ := Prod.mk.inj values
  obtain ⟨main, lasts⟩ := Prod.mk.inj mains
  obtain ⟨closed, ended⟩ := Prod.mk.inj lasts
  have early : ∀ id, (fun _ => 0 : String → Int) id ≤ 1 := fun _id => Int.zero_le_ofNat 1
  obtain ⟨before, first⟩ := sample_forward early
    (fun action member => sampleToEnd_atOne action (List.mem_of_mem_take member)) halfway
  obtain ⟨clock, reach⟩ := sample_forward early sampleToEnd_atOne whole
  have running : middle.main ≠ .done := by
    rw [main]
    exact MainPc.noConfusion
  refine ⟨start, middle, state, before, clock, started, halfway, opened, ?_, whole, closed, ?_⟩
  · exact ((ledger_mirrors_billing (policies sampleConfig) sampleConfig ⟨"least_conn", []⟩
      sampleCreated ⟨true, true, some 0, fun _ => 0⟩ start middle before (by decide) (by decide)
      started first).1 running).1
  · exact (ledger_mirrors_billing (policies sampleConfig) sampleConfig ⟨"least_conn", []⟩
      sampleCreated ⟨true, true, some 0, fun _ => 0⟩ start state clock (by decide) (by decide)
      started reach).2 ended

end AutoBurst.Controller
