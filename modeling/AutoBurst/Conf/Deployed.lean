/-
The runs of the controller with the texts beside them. A monitor performs each
update of the short-term thread on the files of the load balancer: while the
transfers succeed, nginx runs with the nodes of the last update, in every order
of the threads' steps.
-/

import AutoBurst.Conf.Site

namespace AutoBurst.Conf

open Controller Nginx Runs

/-! ### Nodes of a run -/

section Nodes

variable {est : Estimator} {cfg : Config} {base : UpstreamBlock} {created : List Info}
  {input : StartInput} {start state : State} {allowed : State → Act → Prop}
  {risks : Risk → Prop} {P : Int → Prop} {first last : Fleet}

/-- A start copies a weight or gives weight 1. -/
theorem move_onDWeights (one : P 1) (move : Move cfg risks first last)
    (all : ∀ node ∈ first.currOnD, P node.weight) : ∀ node ∈ last.currOnD, P node.weight := by
  cases move with
  | startOnD _head _weighed _opened =>
      have given : P first.onDweight := by
        unfold Fleet.onDweight
        split
        · exact one
        · rename_i node rest head
          exact all node (head ▸ List.mem_cons_self)
      exact forall_snoc all given
  | stopOnD head => exact (forall_uncons head all).2
  | _ => exact all

/-- Weights of a kind that the bounds, the clamped weights and 1 are of. -/
theorem reach_rotationWeights (clamped : ∀ weight, P (cfg.clampWeight weight)) (least : P cfg.L)
    (most : P cfg.H) (one : P 1) (started : startUp cfg base created input = some start)
    (reach : Reach (step est cfg) allowed start state) :
    ∀ node ∈ state.fleet.rotation, P node.weight := by
  have burstable := reach_burWeights clamped least started reach
  have onDemand : ∀ node ∈ state.fleet.currOnD, P node.weight := by
    refine reach_fleet (fun _risk => True) (fun _ _ _ _ _ => trivial) started reach
      (fun fleet => ∀ node ∈ fleet.currOnD, P node.weight) ?_ (fun _ _ => move_onDWeights one)
    obtain ⟨fleet, _taken, launched⟩ := startUp_launched started
    obtain ⟨burCost, ondCost, lists⟩ := launched.lists
    rw [lists]
    intro node member
    obtain ⟨original, _there, rfl⟩ := List.mem_map.mp member
    exact most
  intro node member
  rcases List.mem_append.mp member with running | pending
  · rcases List.mem_append.mp running with listed | listed
    · exact onDemand node listed
    · exact burstable.currBur node listed
  · exact burstable.pending node pending

/-- Only created instances are ever listed. -/
theorem reach_created (started : startUp cfg base created input = some start)
    (reach : Reach (step est cfg) allowed start state) :
    ∀ node ∈ state.fleet.nodes, node.info ∈ created := by
  intro node member
  obtain ⟨fleet, taken, launched⟩ := startUp_launched started
  have pools := getWikiNodeInfo_pools created
  have listed : 0 < state.fleet.listed node.info :=
    List.count_pos_iff.mpr (List.mem_map_of_mem member)
  rw [reach_listed started reach, launched_infos launched, setStartUpNodes_pools taken,
    pools.onD] at listed
  rcases Nat.add_pos_iff_pos_or_pos.mp listed with onDemand | burstable
  · exact List.mem_of_mem_filter (List.count_pos_iff.mp onDemand)
  · exact List.mem_of_mem_filter (pools.burSub.subset (List.count_pos_iff.mp burstable))

theorem rotation_nodes {fleet : Fleet} {node : Node} (member : node ∈ fleet.rotation) :
    node ∈ fleet.nodes := by
  unfold Fleet.rotation at member
  unfold Fleet.nodes
  simp only [List.mem_append] at member ⊢
  rcases member with (onDemand | burstable) | pending
  · exact .inl (.inl (.inl (.inl (.inl (.inr onDemand)))))
  · exact .inl (.inl (.inl (.inr burstable)))
  · exact .inl (.inr pending)

end Nodes

/-! ### Updates of a run -/

section Runs

variable (resolver : Resolver) (accepts : Accepts)

def observeSite (before : State) (action : Act) (after : State) (site : Option Site) :
    Option Site :=
  match action with
  | .short input =>
      if Updates before after then
        site.bind fun current => current.updateConf resolver accepts
          (ipWeight after.fleet.currOnD after.fleet.currBur after.fleet.stoppedInstancesPending)
          input.sent
      else site
  | _ => site

def startSite (site : Site) (created : List Info) (input : StartInput) (start : State) :
    Option Site :=
  (site.setupIntialNginxConf resolver accepts (wikiIps created) input.initialSent).bind
    fun launched => launched.updateConf resolver accepts
      (ipWeight start.fleet.currOnD start.fleet.currBur []) input.sent

def Delivered (state : State) : Act → Prop
  | .main _input => True
  | .short input => state.short.isLocked = true → input.sent = true
  | .clientDone => True

instance (state : State) (action : Act) : Decidable (Delivered state action) :=
  match action with
  | .main _input => inferInstanceAs (Decidable True)
  | .short _input => inferInstanceAs (Decidable (_ → _))
  | .clientDone => inferInstanceAs (Decidable True)

/-- The list is cached; unless it is empty, it is on the load balancer and served. -/
structure Current (site : Option Site) (entries : List IpWeight) (service : Service) : Prop where
  texts : site = some service.site
  sound : service.Sound
  cached : service.lb.prevIpWeight = entries
  remote : entries ≠ [] → service.lb.wikiConfigRemote.servers = entries
  served : entries ≠ [] → service.served = entries

variable {resolver accepts}

/-- An update whose transfer succeeds, of a list that nginx takes or that is
empty. A skipped one finds its list where it belongs. -/
theorem Current.updated (installed : Installed accepts) {site : Option Site}
    {entries next : List IpWeight} {service : Service} (current : Current site entries service)
    (dotted : DottedIps next) (weights : ∀ server ∈ next, acceptedWeight server.2 = true) :
    Current (site.bind fun before => before.updateConf resolver accepts next true) next
      (service.updateConf next true) := by
  have texts : (site.bind fun before => before.updateConf resolver accepts next true) =
      some (service.updateConf next true).site := by
    rw [current.texts, Option.bind_some, updateConf_site installed current.sound dotted]
  have sound := current.sound.update dotted true
  cases rewritten : needsRewrite service.lb.prevIpWeight next with
  | false =>
      have same : next = entries :=
        ((needsRewrite_eq_false_iff _ _).mp rewritten).2.trans current.cached
      have remote : (service.updateConf next true).lb.wikiConfigRemote =
          service.lb.wikiConfigRemote := by
        unfold Service.updateConf
        rw [updateWith_skipped rewritten]
      have served : (service.updateConf next true).served = service.served := by
        unfold Service.updateConf
        simp only [rewritten, Bool.false_eq_true, false_and, if_false]
      rw [← same] at current
      exact ⟨texts, sound, rfl, remote ▸ current.remote, served ▸ current.served⟩
  | true =>
      have remote : (service.updateConf next true).lb.wikiConfigRemote.servers = next := by
        unfold Service.updateConf
        rw [updateWith_written rewritten]
        rfl
      have served : next ≠ [] → (service.updateConf next true).served = next := by
        intro nonempty
        rw [← remote] at nonempty weights
        exact (if_pos ⟨rewritten, nonempty, weights⟩).trans remote
      exact ⟨texts, sound, rfl, fun _nonempty => remote, served⟩

/-- What an update of a run passes on, by address and weight. -/
theorem ipWeight_rotation (fleet : Fleet) :
    ipWeight fleet.currOnD fleet.currBur fleet.stoppedInstancesPending =
      fleet.rotation.map Node.entry := by
  unfold ipWeight Fleet.rotation
  rw [List.map_append, List.map_append]

variable {est : Estimator} {cfg : Config} {base : UpstreamBlock} {created : List Info}
  {input : StartInput} {start state : State} {allowed : State → Act → Prop}

/-- In every state of every run the rotation is a list that nginx takes, unless
it is empty. -/
theorem reach_entries (positive : 1 ≤ cfg.L) (ordered : cfg.L ≤ cfg.H) (small : cfg.H ≤ maxInt)
    (dotted : ∀ info ∈ created, dottedIp info.privateIpAddress = true)
    (started : startUp cfg base created input = some start)
    (reach : Reach (step est cfg) allowed start state) :
    DottedIps (state.fleet.rotation.map Node.entry) ∧
      ∀ server ∈ state.fleet.rotation.map Node.entry, acceptedWeight server.2 = true := by
  have accepted : ∀ weight : Int, cfg.L ≤ weight → weight ≤ cfg.H →
      acceptedWeight weight = true := by
    intro weight low high
    unfold acceptedWeight
    rw [decide_eq_true_eq]
    omega
  have weights := reach_rotationWeights (P := fun weight => acceptedWeight weight = true)
    (fun weight => accepted _ (clampWeight_bounds ordered weight).1
      (clampWeight_bounds ordered weight).2)
    (accepted _ le_rfl ordered) (accepted _ ordered le_rfl) (by decide) started reach
  constructor
  · intro server member
    obtain ⟨node, listed, rfl⟩ := List.mem_map.mp member
    exact dotted node.info (reach_created started reach node (rotation_nodes listed))
  · intro server member
    obtain ⟨node, listed, rfl⟩ := List.mem_map.mp member
    exact weights node listed

/-- The invariant of a run with delivered updates. -/
theorem reach_current (installed : Installed accepts) (positive : 1 ≤ cfg.L)
    (ordered : cfg.L ≤ cfg.H) (small : cfg.H ≤ maxInt)
    (dotted : ∀ info ∈ created, dottedIp info.privateIpAddress = true)
    (started : startUp cfg base created input = some start) {site : Option Site}
    (initial : ∃ service, Current site (start.upstream.map Node.entry) service)
    {tracked : State × Option Site}
    (reach : Reach (monitored (step est cfg) (observeSite resolver accepts))
      (fun tracked => Delivered tracked.1) (start, site) tracked) :
    ∃ service, Current tracked.2 (tracked.1.upstream.map Node.entry) service := by
  induction reach with
  | start => exact initial
  | @next before after action reached permitted taken ih =>
      obtain ⟨service, current⟩ := ih
      obtain ⟨stepped, memory⟩ := monitored_eq_some.mp taken
      have plain := reached.unmonitored
      have nextReach : Reach (step est cfg) (fun _ _ => True) start after.1 :=
        plain.next action trivial stepped
      rw [memory]
      cases action with
      | main input =>
          have same := (mainStep_effect stepped (reach_sortHeld started plain)).upstream
          rw [same]
          exact ⟨service, current⟩
      | clientDone =>
          have same : after.1 = { before.1 with clientRunning := false } :=
            (Option.some.inj stepped).symm
          rw [same]
          exact ⟨service, current⟩
      | short input =>
          have effect := shortStep_effect stepped
          unfold observeSite
          dsimp only
          by_cases updates : Updates before.1 after.1
          · obtain ⟨dottedIps, weights⟩ :=
              reach_entries positive ordered small dotted started nextReach
            rw [if_pos updates, effect.updated updates, ipWeight_rotation, permitted updates.1]
            exact ⟨_, current.updated installed dottedIps weights⟩
          · rw [if_neg updates, effect.kept updates]
            exact ⟨service, current⟩

theorem current_startSite (installed : Installed accepts) (positive : 1 ≤ cfg.L)
    (ordered : cfg.L ≤ cfg.H) (small : cfg.H ≤ maxInt) (nonempty : created ≠ [])
    (dotted : ∀ info ∈ created, dottedIp info.privateIpAddress = true) {site : Site}
    (fresh : site.prevIpWeight = []) (idle : site.cycle = none)
    (delivered : input.initialSent = true ∧ input.sent = true)
    (started : startUp cfg base created input = some start) :
    ∃ service, Current (startSite resolver accepts site created input start)
      (start.upstream.map Node.entry) service := by
  have addresses : DottedIps (wikiIps created) := by
    intro server member
    obtain ⟨info, listed, rfl⟩ := List.mem_map.mp member
    exact dotted info listed
  have launched : site.setupIntialNginxConf resolver accepts (wikiIps created) true =
      some (Service.launch base created).site :=
    setupIntialNginxConf_site installed fresh idle nonempty addresses
  have uncached : (Service.launch base created).lb.prevIpWeight = [] := by
    rw [launch_lb nonempty]
  have before : Current (some (Service.launch base created).site) []
      (Service.launch base created) :=
    ⟨rfl, sound_launch nonempty addresses, uncached, fun some => absurd rfl some,
      fun some => absurd rfl some⟩
  have whole := startUp_rotation started
  obtain ⟨fleet, _taken, state⟩ := startUp_launched started
  have entries : ipWeight start.fleet.currOnD start.fleet.currBur [] =
      start.upstream.map Node.entry := by
    unfold ipWeight
    rw [state.upstream, List.map_append, List.map_nil, List.append_nil]
  have initial : Reach (step (policies cfg) cfg) (fun _ _ => True) start start := .start
  obtain ⟨dottedIps, weights⟩ := reach_entries positive ordered small dotted started initial
  rw [← whole] at dottedIps weights
  unfold startSite
  rw [delivered.1, delivered.2, launched, entries]
  exact ⟨_, before.updated installed dottedIps weights⟩

/-- In every state of every run whose transfers succeed, whatever the order of
the threads' steps, nginx runs with a list it took, and that is the nodes of the
last update under their addresses and weights unless the update was empty. -/
theorem deployed_is_served (resolver : Resolver) (accepts : Accepts)
    (installed : Installed accepts) (est : Estimator) (cfg : Config) (base : UpstreamBlock)
    (created : List Info) (input : StartInput) (site : Site) (start state : State)
    (current : Option Site) (positive : 1 ≤ cfg.L) (ordered : cfg.L ≤ cfg.H)
    (small : cfg.H ≤ maxInt) (nonempty : created ≠ [])
    (dotted : ∀ info ∈ created, dottedIp info.privateIpAddress = true)
    (fresh : site.prevIpWeight = []) (idle : site.cycle = none)
    (delivered : input.initialSent = true ∧ input.sent = true)
    (started : startUp cfg base created input = some start)
    (reach : Reach (monitored (step est cfg) (observeSite resolver accepts))
      (fun tracked => Delivered tracked.1)
      (start, startSite resolver accepts site created input start) (state, current)) :
    ∃ now served, current = some now ∧ now.cycle = some (servedUpstreams served) ∧
      Accepted served ∧
      (state.upstream ≠ [] → served = state.upstream.map Node.entry) := by
  obtain ⟨service, followed⟩ := reach_current installed positive ordered small dotted started
    (current_startSite installed positive ordered small nonempty dotted fresh idle
      delivered started) reach
  refine ⟨service.site, service.served, followed.texts, rfl, followed.sound.served, ?_⟩
  intro deployed
  apply followed.served
  rw [ne_eq, List.map_eq_nil_iff]
  exact deployed

end Runs

/-- While the main thread sorts `curr_bur` the short-term thread updates, and
nginx is left with the on-demand node. -/
theorem deployed_is_served_sample :
    ∃ start state current, sampleStart sampleConfig = some start ∧
      state.upstream.map Node.entry = [("172.31.0.1", 1)] ∧
      Reach (monitored (step (policies sampleConfig) sampleConfig)
        (observeSite sampleResolver sampleAccepts)) (fun tracked => Delivered tracked.1)
        (start, startSite sampleResolver sampleAccepts sampleSite sampleCreated
          ⟨true, true, some 0, fun _ => 0⟩ start) (state, current) ∧
      ∃ now served, current = some now ∧ now.cycle = some (servedUpstreams served) ∧
        Accepted served ∧
        (state.upstream ≠ [] → served = state.upstream.map Node.entry) := by
  have seen : (sampleRun sampleConfig Delivered
      (List.replicate 15 sampleMain ++ List.replicate 3 (sampleShort .empty))).map
        (fun state => state.upstream.map Node.entry) =
      some [("172.31.0.1", 1)] := by decide +kernel
  obtain ⟨state, ran, listed⟩ := Option.map_eq_some_iff.mp seen
  obtain ⟨start, started, reach⟩ := sampleRun_reach ran
  obtain ⟨current, tracked⟩ := reach.monitor (observeSite sampleResolver sampleAccepts)
    (startSite sampleResolver sampleAccepts sampleSite sampleCreated
      ⟨true, true, some 0, fun _ => 0⟩ start)
  exact ⟨start, state, current, started, listed, tracked,
    deployed_is_served sampleResolver sampleAccepts sampleAccepts_installed
      (policies sampleConfig) sampleConfig ⟨"least_conn", []⟩ sampleCreated
      ⟨true, true, some 0, fun _ => 0⟩ sampleSite start state current (by decide) (by decide)
      (by decide) (by decide) (by decide +kernel) rfl rfl ⟨rfl, rfl⟩ started tracked⟩

end AutoBurst.Conf
