/-
The deployed list and the instances that are running, in every order of the
two threads' steps.

Two gaps separate them. A node is put into rotation when its start is issued and
not when it is observed running; and a node leaves rotation, and may be stopped,
before the list without it has been deployed.
-/

import AutoBurst.Controller.Snapshot

namespace AutoBurst.Controller

open Runs

/-- A start of the instance has been issued and `running` not been observed. -/
def awaited (id : String) : List Command → Bool
  | [] => false
  | .startInstance other :: earlier => if other = id then true else awaited id earlier
  | .blockRunning other :: earlier => if other = id then false else awaited id earlier
  | .stopInstanceNonBlocking _other :: earlier => awaited id earlier
  | .blockStopped _other :: earlier => awaited id earlier

@[simp] theorem awaited_start (id other : String) (log : List Command) :
    awaited id (.startInstance other :: log) = if other = id then true else awaited id log := rfl

@[simp] theorem awaited_blockRunning (id other : String) (log : List Command) :
    awaited id (.blockRunning other :: log) = if other = id then false else awaited id log := rfl

def Fleet.inUse (fleet : Fleet) : List String :=
  (fleet.currOnD ++ fleet.currBur ++ fleet.sorting ++ fleet.stoppedInstancesPending).map Node.id

def Fleet.Ready (fleet : Fleet) : Prop :=
  ∀ id ∈ fleet.inUse, confirmedRunning id fleet.log = true ∨ awaited id fleet.log = true

/-- An instance in rotation is in no other list. -/
theorem inUse_apart {fleet : Fleet} (distinct : (fleet.nodes.map Node.id).Nodup) {id : String}
    (used : id ∈ fleet.inUse) :
    id ∉ (fleet.onD ++ fleet.bur ++ fleet.stoppedInstances).map Node.id := by
  intro elsewhere
  have once := List.nodup_iff_count_le_one.mp distinct id
  have here := List.count_pos_iff.mpr used
  have there := List.count_pos_iff.mpr elsewhere
  simp only [Fleet.nodes, Fleet.inUse, List.map_append, List.count_append] at once here there
  omega

/-! ### The log under a move -/

section Moves

variable {cfg : Config} {risks : Risk → Prop} {first last : Fleet} {id : String}

/-- A move issues at most one command, and a stop only for a stopped node. -/
theorem Move.log_cases (move : Move cfg risks first last) :
    last.log = first.log ∨
    (∃ node ∈ first.stoppedInstances, risks (.stop node.id) ∧
      last.log = .stopInstanceNonBlocking node.id :: first.log) ∨
    (∃ command, (∀ id, command ≠ .stopInstanceNonBlocking id) ∧
      last.log = command :: first.log) := by
  cases move with
  | @stop node member risk => exact .inr (.inl ⟨node, member, risk, rfl⟩)
  | @stopped node member => exact .inr (.inr ⟨.blockStopped node.id, nofun, rfl⟩)
  | @running node member => exact .inr (.inr ⟨.blockRunning node.id, nofun, rfl⟩)
  | @startOnD node pool ondCost now head weighed opened =>
      exact .inr (.inr ⟨.startInstance node.id, nofun, rfl⟩)
  | @failOnD node pool head => exact .inr (.inr ⟨.startInstance node.id, nofun, rfl⟩)
  | @startBur node pool burCost now head opened =>
      exact .inr (.inr ⟨.startInstance node.id, nofun, rfl⟩)
  | @failBur node pool head => exact .inr (.inr ⟨.startInstance node.id, nofun, rfl⟩)
  | _ => exact .inl rfl

/-- What no stop is risked for stays running. -/
theorem Move.confirmed (move : Move cfg risks first last)
    (spared : ¬risks (.stop id))
    (running : confirmedRunning id first.log = true) : confirmedRunning id last.log = true := by
  rcases move.log_cases with same | stopped | issued
  · rw [same]
    exact running
  · obtain ⟨node, _member, risk, same⟩ := stopped
    have other : node.id ≠ id := fun equal => spared (equal ▸ risk)
    rw [same, confirmedRunning_stop, if_neg other]
    exact running
  · obtain ⟨command, other, same⟩ := issued
    rw [same]
    cases command with
    | stopInstanceNonBlocking stopped => exact absurd rfl (other stopped)
    | startInstance started => exact running
    | blockStopped observed => exact running
    | blockRunning observed =>
        rw [confirmedRunning_blockRunning]
        split
        · rfl
        · exact running

/-- What is running or about to stays so. -/
theorem Move.ready (move : Move cfg risks first last)
    (spared : ¬risks (.stop id))
    (ready : confirmedRunning id first.log = true ∨ awaited id first.log = true) :
    confirmedRunning id last.log = true ∨ awaited id last.log = true := by
  rcases ready with running | waiting
  · exact .inl (move.confirmed spared running)
  · rcases move.log_cases with same | stopped | issued
    · rw [same]
      exact .inr waiting
    · obtain ⟨node, _member, _risk, same⟩ := stopped
      rw [same]
      exact .inr waiting
    · obtain ⟨command, other, same⟩ := issued
      rw [same]
      cases command with
      | stopInstanceNonBlocking stopped => exact absurd rfl (other stopped)
      | startInstance started =>
          right
          rw [awaited_start]
          split
          · rfl
          · exact waiting
      | blockStopped observed => exact .inr waiting
      | blockRunning observed =>
          by_cases same : observed = id
          · exact .inl (by rw [confirmedRunning_blockRunning, if_pos same])
          · right
            rw [awaited_blockRunning, if_neg same]
            exact waiting

theorem id_reweighed (node : Node) (weight : Int) :
    ({ node with weight := weight } : Node).id = node.id := rfl

theorem ids_of_touched {old new : List Node} (touched : List.Forall₂ (Touched cfg) old new) :
    new.map Node.id = old.map Node.id := by
  have infos := congrArg (List.map Info.instanceId) (infos_of_touched touched)
  rw [List.map_map, List.map_map] at infos
  exact infos

/-- Only an instance that has just been started comes into use. -/
theorem Move.inUse (move : Move cfg risks first last) (member : id ∈ last.inUse) :
    id ∈ first.inUse ∨ awaited id last.log = true := by
  unfold Fleet.inUse at member ⊢
  cases move with
  | touch running draining =>
      simp only [List.map_append, ids_of_touched running, ids_of_touched draining] at member ⊢
      exact .inl member
  | arrange same =>
      simp only [List.map_append, List.mem_append, (same.map Node.id).mem_iff] at member ⊢
      exact .inl member
  | stop _member _risk => exact .inl member
  | stopped _member => exact .inl member
  | running _member => exact .inl member
  | retire found =>
      simp only [found, List.map_append, List.mem_append, List.map_cons, List.mem_cons] at member ⊢
      tauto
  | repoolBur _head _kind _closed => exact .inl member
  | repoolOnD _head _kind _closed => exact .inl member
  | @startOnD node pool ondCost now head weighed opened =>
      by_cases started : node.id = id
      · exact .inr (by simp [Fleet.record, started])
      · simp only [Fleet.record, List.map_append, List.mem_append, List.map_cons, List.map_nil,
          List.mem_singleton, id_reweighed] at member ⊢
        have others : id ≠ node.id := Ne.symm started
        tauto
  | failOnD _head => exact .inl member
  | stopOnD head =>
      simp only [head, List.map_append, List.mem_append, List.map_cons, List.mem_cons] at member ⊢
      tauto
  | reactivate head =>
      simp only [head, List.map_append, List.mem_append, List.map_cons, List.map_nil, List.mem_cons,
        id_reweighed] at member ⊢
      tauto
  | @startBur node pool burCost now head opened =>
      by_cases started : node.id = id
      · exact .inr (by simp [Fleet.record, started])
      · simp only [Fleet.record, List.map_append, List.mem_append, List.map_cons, List.map_nil,
          List.mem_singleton, id_reweighed] at member ⊢
        have others : id ≠ node.id := Ne.symm started
        tauto
  | failBur _head => exact .inl member
  | beginSort idle _risk =>
      simp only [Fleet.beginSort, idle, List.map_append, List.mem_append, List.map_nil] at member ⊢
      tauto
  | endSort empty =>
      have sorted := (sortAscending_perm Node.creditBalance first.sorting).map Node.id
      simp only [Fleet.endSort, empty, List.map_append, List.mem_append, List.map_nil,
        sorted.mem_iff] at member ⊢
      tauto
  | drainBur head _risk =>
      simp only [head, List.map_append, List.mem_append, List.map_cons, List.map_nil,
        List.mem_cons] at member ⊢
      tauto
  | close _now => exact .inl member

theorem moves_ready (moves : Moves cfg risks first last) (quiet : ∀ id, ¬risks (.stop id))
    (ready : first.Ready) : last.Ready := by
  refine moves_invariant moves (fun _risk risky => risky) Fleet.Ready ?_ ready
  intro before after move ready id member
  rcases move.inUse member with earlier | started
  · exact move.ready (quiet id) (ready id earlier)
  · exact .inr started

theorem moves_confirmed (moves : Moves cfg risks first last) (quiet : ∀ id, ¬risks (.stop id))
    (running : confirmedRunning id first.log = true) : confirmedRunning id last.log = true := by
  refine moves_invariant moves (fun _risk risky => risky)
    (fun fleet => confirmedRunning id fleet.log = true) ?_ running
  intro before after move running
  exact move.confirmed (quiet id) running

end Moves

/-! ### Steps -/

def observeRetired (before : State) (_action : Act) (after : State) (retired : List String) :
    List String :=
  if Updates before after then []
  else retired ++ before.fleet.inUse.filter fun id => decide (id ∉ after.fleet.inUse)

/-- No stop is issued for an instance that the deployed list may still hold, and
no update is made while a node in rotation is awaited. -/
def Settled (tracked : State × List String) : Act → Prop
  | .main _input => ∀ node ∈ tracked.1.stopping, node.id ∉ tracked.2
  | .short _input => tracked.1.short.isLocked = true →
      ∀ node ∈ tracked.1.fleet.rotation, awaited node.id tracked.1.fleet.log = false
  | .clientDone => True

instance (tracked : State × List String) (action : Act) : Decidable (Settled tracked action) :=
  match action with
  | .main _input => inferInstanceAs (Decidable (∀ node ∈ tracked.1.stopping, _))
  | .short _input => inferInstanceAs (Decidable (_ → _))
  | .clientDone => inferInstanceAs (Decidable True)

structure Deployed (tracked : State × List String) : Prop where
  running : ∀ node ∈ tracked.1.upstream, confirmedRunning node.id tracked.1.fleet.log = true
  ready : tracked.1.fleet.Ready
  known : ∀ node ∈ tracked.1.upstream, node.id ∈ tracked.1.fleet.inUse ∨ node.id ∈ tracked.2

section Steps

variable {est : Estimator} {cfg : Config} {before after : State} {retired : List String}

theorem stopping_mem {node : Node} (stopping : before.stopping = some node) :
    node ∈ before.fleet.stoppedInstances := by
  unfold State.stopping at stopping
  split at stopping
  · split at stopping
    · exact List.mem_of_getElem? stopping
    · cases stopping
  · cases stopping

theorem mainStep_stopping {input : MainInput} {node : Node}
    (taken : mainStep est cfg input before = some after) (stopping : before.stopping = some node) :
    after.fleet = before.fleet.record (.stopInstanceNonBlocking node.id) := by
  unfold State.stopping at stopping
  split at stopping
  · rename_i i lenStopped here
    split at stopping
    · rename_i inRange
      unfold mainStep at taken
      rw [here] at taken
      cases taken
      simp only [stopIssue, if_pos inRange, stopping]
    · cases stopping
  · cases stopping

private theorem not_updates_of_short (same : after.short = before.short) :
    ¬Updates before after := by
  intro updates
  have locked := updates.1
  rw [← same, updates.2] at locked
  cases locked

/-- What is deployed and in use stays in use or has just left. -/
private theorem known_step (action : Act) (upstream : after.upstream = before.upstream)
    (plain : ¬Updates before after)
    (known : ∀ node ∈ before.upstream, node.id ∈ before.fleet.inUse ∨ node.id ∈ retired) :
    ∀ node ∈ after.upstream, node.id ∈ after.fleet.inUse ∨
      node.id ∈ observeRetired before action after retired := by
  intro node member
  rw [upstream] at member
  unfold observeRetired
  rw [if_neg plain]
  by_cases used : node.id ∈ after.fleet.inUse
  · exact .inl used
  · right
    rcases known node member with earlier | gone
    · exact List.mem_append_right _ (List.mem_filter.mpr ⟨earlier, decide_eq_true used⟩)
    · exact List.mem_append_left _ gone

theorem Deployed.of_mainStep {input : MainInput} (deployed : Deployed (before, retired))
    (taken : mainStep est cfg input before = some after) (held : before.SortHeld)
    (distinct : (before.fleet.nodes.map Node.id).Nodup)
    (permitted : Settled (before, retired) (.main input)) :
    Deployed (after, observeRetired before (.main input) after retired) := by
  have effect := mainStep_effect taken held
  have plain : ¬Updates before after := not_updates_of_short effect.short
  have known := known_step (.main input) effect.upstream plain deployed.known
  cases stopping : before.stopping with
  | none =>
      have quiet : ∀ id, ¬before.risks (.stop id) := by
        intro id risk
        obtain ⟨node, stops, _same⟩ := risk
        rw [stopping] at stops
        cases stops
      refine ⟨?_, moves_ready effect.moves quiet deployed.ready, known⟩
      intro node member
      rw [effect.upstream] at member
      exact moves_confirmed effect.moves quiet (deployed.running node member)
  | some stopped =>
      have fleet := mainStep_stopping taken stopping
      have apart : ∀ id ∈ before.fleet.inUse, stopped.id ≠ id := by
        intro id used same
        apply inUse_apart distinct used
        rw [← same, List.map_append]
        exact List.mem_append_right _ (List.mem_map_of_mem (stopping_mem stopping))
      have inUse : after.fleet.inUse = before.fleet.inUse := by rw [fleet]; rfl
      have log : after.fleet.log = .stopInstanceNonBlocking stopped.id :: before.fleet.log := by
        rw [fleet]
        rfl
      refine ⟨?_, ?_, known⟩
      · intro node member
        rw [effect.upstream] at member
        have other : stopped.id ≠ node.id := by
          rcases deployed.known node member with used | gone
          · exact apart node.id used
          · exact fun same => permitted stopped stopping (same ▸ gone)
        rw [log, confirmedRunning_stop, if_neg other]
        exact deployed.running node member
      · intro id used
        rw [inUse] at used
        rw [log, confirmedRunning_stop, if_neg (apart id used)]
        exact deployed.ready id used

theorem rotation_inUse {fleet : Fleet} {node : Node} (member : node ∈ fleet.rotation) :
    node.id ∈ fleet.inUse := by
  have listed := List.mem_map_of_mem (f := Node.id) member
  simp only [Fleet.rotation, Fleet.inUse, List.map_append, List.mem_append] at listed ⊢
  tauto

theorem Deployed.of_shortStep {input : ShortInput} (deployed : Deployed (before, retired))
    (taken : shortStep cfg before input = some after)
    (permitted : Settled (before, retired) (.short input)) :
    Deployed (after, observeRetired before (.short input) after retired) := by
  have effect := shortStep_effect taken
  have quiet : ∀ id, ¬(fun _risk : Risk => False) (.stop id) := fun _id risk => risk
  have moves : Moves cfg (fun _risk => False) before.fleet after.fleet := effect.moves
  have ready : after.fleet.Ready := moves_ready moves quiet deployed.ready
  by_cases updates : Updates before after
  · have listed := effect.updated updates
    obtain ⟨currBur, pending, running, draining, same⟩ := effect.touched
    have ids : after.fleet.rotation.map Node.id = before.fleet.rotation.map Node.id := by
      rw [same]
      simp only [Fleet.rotation, List.map_append, ids_of_touched running, ids_of_touched draining]
    have log : after.fleet.log = before.fleet.log := by rw [same]
    refine ⟨?_, ready, ?_⟩
    · intro node member
      rw [listed] at member
      have shown : node.id ∈ before.fleet.rotation.map Node.id := by
        rw [← ids]
        exact List.mem_map_of_mem member
      obtain ⟨original, there, equal⟩ := List.mem_map.mp shown
      have settled := permitted updates.1 original there
      rcases ready node.id (rotation_inUse member) with confirmed | waiting
      · exact confirmed
      · rw [log, ← equal, settled] at waiting
        cases waiting
    · intro node member
      rw [listed] at member
      exact .inl (rotation_inUse member)
  · have kept := effect.kept updates
    refine ⟨?_, ready, known_step (.short input) kept updates deployed.known⟩
    intro node member
    rw [kept] at member
    exact moves_confirmed moves quiet (deployed.running node member)

theorem Deployed.of_step {action : Act} (deployed : Deployed (before, retired))
    (taken : step est cfg before action = some after) (held : before.SortHeld)
    (distinct : (before.fleet.nodes.map Node.id).Nodup)
    (permitted : Settled (before, retired) action) :
    Deployed (after, observeRetired before action after retired) := by
  cases action with
  | main input => exact deployed.of_mainStep taken held distinct permitted
  | short input => exact deployed.of_shortStep taken permitted
  | clientDone =>
      cases taken
      exact ⟨deployed.running, deployed.ready,
        known_step .clientDone rfl (not_updates_of_short rfl) deployed.known⟩

end Steps

/-! ### Runs -/

section Runs

variable {est : Estimator} {cfg : Config} {base : UpstreamBlock} {created : List Info}
  {input : StartInput} {start : State}

theorem confirmedRunning_append {id : String} {commands log : List Command}
    (silent : ∀ command ∈ commands,
      command ≠ .stopInstanceNonBlocking id ∧ command ≠ .blockRunning id) :
    confirmedRunning id (commands ++ log) = confirmedRunning id log := by
  induction commands with
  | nil => rfl
  | cons command rest ih =>
      obtain ⟨here, later⟩ := List.forall_mem_cons.mp silent
      rw [List.cons_append]
      cases command with
      | stopInstanceNonBlocking other =>
          rw [confirmedRunning_stop, if_neg (fun same => here.1 (congrArg _ same)), ih later]
      | blockRunning other =>
          rw [confirmedRunning_blockRunning, if_neg (fun same => here.2 (congrArg _ same)),
            ih later]
      | startInstance other => exact ih later
      | blockStopped other => exact ih later

/-- Only pool nodes have been stopped when the threads start. -/
theorem startUp_confirmed (distinct : (created.map Info.instanceId).Nodup)
    (started : startUp cfg base created input = some start) {id : String}
    (used : id ∈ start.fleet.inUse) : confirmedRunning id start.fleet.log = true := by
  obtain ⟨fleet, taken, launched⟩ := startUp_launched started
  have recorded := setStartUpNodes_log taken
  obtain ⟨burCost, ondCost, lists⟩ := launched.lists
  have log : start.fleet.log =
      ((start.fleet.onD ++ start.fleet.bur).map fun node => Command.blockStopped node.id).reverse ++
        ((start.fleet.onD ++ start.fleet.bur).map fun node =>
          Command.stopInstanceNonBlocking node.id).reverse := by
    rw [lists]
    exact recorded
  have outside : id ∉ (start.fleet.onD ++ start.fleet.bur).map Node.id := by
    intro pooled
    apply inUse_apart (startUp_ids_nodup distinct started) used
    rw [List.map_append]
    exact List.mem_append_left _ pooled
  rw [log, ← List.append_nil (List.reverse _ ++ List.reverse _), confirmedRunning_append]
  · rfl
  · intro command member
    rcases List.mem_append.mp member with blocked | stopped
    · obtain ⟨node, _there, rfl⟩ := List.mem_map.mp (List.mem_reverse.mp blocked)
      exact ⟨nofun, nofun⟩
    · obtain ⟨node, there, rfl⟩ := List.mem_map.mp (List.mem_reverse.mp stopped)
      refine ⟨fun same => outside ?_, nofun⟩
      rw [← Command.stopInstanceNonBlocking.inj same]
      exact List.mem_map_of_mem there

theorem startUp_deployed (distinct : (created.map Info.instanceId).Nodup)
    (started : startUp cfg base created input = some start) : Deployed (start, []) := by
  have confirmed : ∀ id ∈ start.fleet.inUse, confirmedRunning id start.fleet.log = true :=
    fun _id used => startUp_confirmed distinct started used
  have whole := startUp_rotation started
  refine ⟨?_, fun id used => .inl (confirmed id used), ?_⟩
  · intro node member
    change node ∈ start.upstream at member
    rw [whole] at member
    exact confirmed node.id (rotation_inUse member)
  · intro node member
    change node ∈ start.upstream at member
    rw [whole] at member
    exact .inl (rotation_inUse member)

/-- In every run in which stops wait for an update and updates wait for starts,
the deployed list holds running instances only. -/
theorem upstream_running (est : Estimator) (cfg : Config) (base : UpstreamBlock)
    (created : List Info) (input : StartInput) (start state : State) (retired : List String)
    (distinct : (created.map Info.instanceId).Nodup)
    (started : startUp cfg base created input = some start)
    (reach : Reach (monitored (step est cfg) observeRetired) Settled (start, []) (state, retired)) :
    ∀ node ∈ state.upstream, confirmedRunning node.id state.fleet.log = true := by
  have deployed : ∀ tracked, Reach (monitored (step est cfg) observeRetired) Settled (start, [])
      tracked → Deployed tracked := by
    intro tracked reach
    induction reach with
    | start => exact startUp_deployed distinct started
    | @next before after action reached permitted taken ih =>
        obtain ⟨stepped, memory⟩ := monitored_eq_some.mp taken
        have plain := reached.unmonitored
        have next := ih.of_step stepped (reach_sortHeld started plain)
          (reach_ids_nodup distinct started plain) permitted
        rw [← memory] at next
        exact next
  exact (deployed (state, retired) reach).running

end Runs

/-! ### An update before the node runs -/

/-- The short-term thread deploys the on-demand node after its start and before
the main thread has observed it running. -/
theorem upstream_not_running :
    ∃ start state, sampleStart sampleConfig = some start ∧
      Reach (step (policies sampleConfig) sampleConfig) (fun _ _ => True) start state ∧
      ∃ node ∈ state.upstream, confirmedRunning node.id state.fleet.log = false := by
  have seen : (sampleRun sampleConfig (fun _ _ => True)
      (List.replicate 11 sampleMain ++ sampleLocked ++ [sampleShort .empty])).map (fun state =>
        decide (∃ node ∈ state.upstream, confirmedRunning node.id state.fleet.log = false)) =
      some true := by decide +kernel
  obtain ⟨state, ran, shown⟩ := Option.map_eq_some_iff.mp seen
  obtain ⟨start, started, reach⟩ := sampleRun_reach ran
  exact ⟨start, state, started, reach, of_decide_eq_true shown⟩

/-- One step later the node has been observed running. -/
theorem upstream_running_sample :
    ∃ start state retired, sampleStart sampleConfig = some start ∧
      run (guarded (monitored (step (policies sampleConfig) sampleConfig) observeRetired) Settled)
        (start, []) (List.replicate 12 sampleMain ++ sampleLocked ++ [sampleShort .empty]) =
          some (state, retired) ∧
      state.upstream.map Node.id = ["i-01", "i-02", "i-03"] ∧
      ∀ node ∈ state.upstream, confirmedRunning node.id state.fleet.log = true := by
  have seen : ((sampleStart sampleConfig).bind fun start =>
      (run (guarded (monitored (step (policies sampleConfig) sampleConfig) observeRetired) Settled)
        (start, []) (List.replicate 12 sampleMain ++ sampleLocked ++ [sampleShort .empty])).map
          fun tracked => tracked.1.upstream.map Node.id) = some ["i-01", "i-02", "i-03"] := by
    decide +kernel
  obtain ⟨start, started, next⟩ := Option.bind_eq_some_iff.mp seen
  obtain ⟨tracked, ran, listed⟩ := Option.map_eq_some_iff.mp next
  refine ⟨start, tracked.1, tracked.2, started, ran, listed, ?_⟩
  exact upstream_running (policies sampleConfig) sampleConfig ⟨"least_conn", []⟩ sampleCreated
    ⟨true, true, some 0, fun _ => 0⟩ start tracked.1 tracked.2 (by decide) started
    (reach_of_guarded_run ran)

end AutoBurst.Controller
