/-
From the controller's weights to the connections of nginx: the upstream that is
built from the list last deployed spreads the open requests over the nodes by
the weights the controller gave them.
-/

import AutoBurst.Conf.Deployed
import AutoBurst.Nginx.Spread

namespace AutoBurst.Conf

open Controller Nginx Runs

/-! ### The upstream of a list -/

section Built

variable {served : List IpWeight}

def servedPeer (server : IpWeight) : RrPeer :=
  (servedLine server).peer (server.1 ++ ":" ++ toString wikiPort)

private theorem peersOf_served (served : List IpWeight) :
    peersOf false (served.map servedLine) = served.map servedPeer ∧
      peersOf true (served.map servedLine) = [] := by
  constructor
  · unfold peersOf serversOf
    rw [List.filter_eq_self.mpr]
    · rw [List.flatMap_map]
      exact List.map_eq_flatMap.symm
    · intro server member
      obtain ⟨line, _listed, rfl⟩ := List.mem_map.mp member
      rfl
  · unfold peersOf serversOf
    rw [List.filter_eq_nil_iff.mpr]
    · rfl
    · intro server member
      obtain ⟨line, _listed, rfl⟩ := List.mem_map.mp member
      exact Bool.false_ne_true

structure Lists (served : List IpWeight) {n m : Nat} (up : Upstream n m) : Prop where
  several : up.primary.single = false
  peers : List.ofFn up.primary.peer = served.map servedPeer

private theorem initRoundRobin_served (host : String) (two : 2 ≤ served.length) :
    ∃ up, initRoundRobin host (served.map servedLine) = some up ∧ Lists served up := by
  obtain ⟨primary, backup⟩ := peersOf_served served
  have length : (peersOf false (served.map servedLine)).length = served.length := by
    rw [primary, List.length_map]
  have none : (peersOf true (served.map servedLine)).length = 0 := by
    rw [backup]
    rfl
  unfold initRoundRobin
  rw [if_neg (by omega), if_pos none]
  refine ⟨_, rfl, ?_, ?_⟩
  · change ((peersOf false (served.map servedLine)).length == 1) = false
    rw [beq_eq_false_iff_ne]
    omega
  · exact (List.ofFn_get _).trans primary

theorem Lists.length {n m : Nat} {up : Upstream n m} (lists : Lists served up) :
    n = served.length := by
  have lengths := congrArg List.length lists.peers
  rw [List.length_ofFn, List.length_map] at lengths
  exact lengths

theorem Lists.mem {n m : Nat} {up : Upstream n m} (lists : Lists served up) (i : Fin n) :
    ∃ server ∈ served, up.primary.peer i = servedPeer server := by
  have member : up.primary.peer i ∈ served.map servedPeer := by
    rw [← lists.peers, List.mem_ofFn]
    exact ⟨i, rfl⟩
  obtain ⟨server, listed, same⟩ := List.mem_map.mp member
  exact ⟨server, listed, same.symm⟩

theorem Lists.healthy {n m : Nat} {up : Upstream n m} (lists : Lists served up) :
    Healthy up.primary.peer := by
  constructor
  all_goals
    intro i
    obtain ⟨server, _listed, same⟩ := lists.mem i
    rw [same]
    rfl

theorem Lists.weight {n m : Nat} {up : Upstream n m} (lists : Lists served up)
    (accepted : Accepted served) (i : Fin n) :
    ∃ server ∈ served, (up.primary.peer i).weight = server.2 ∧ 1 ≤ server.2 := by
  obtain ⟨server, listed, same⟩ := lists.mem i
  have weight := of_decide_eq_true (accepted.2 server listed)
  refine ⟨server, listed, ?_, weight.1⟩
  rw [same]
  exact Int.toNat_of_nonneg (by omega)

theorem Lists.spread {n m : Nat} {up : Upstream n m} (lists : Lists served up)
    (accepted : Accepted served) : Spread (fun i => (up.primary.peer i).weight) 0 up := by
  have idle : ∀ i, (up.primary.peer i).conns = 0 := by
    intro i
    obtain ⟨server, _listed, same⟩ := lists.mem i
    rw [same]
    rfl
  refine ⟨lists.several, lists.healthy, fun _i => rfl, ?_, ?_⟩
  · unfold connsOf
    rw [Finset.sum_eq_zero]
    · rfl
    · intro i _listed
      rw [idle i]
      rfl
  · intro i j
    obtain ⟨_server, _listed, heavy, positive⟩ := lists.weight accepted i
    obtain ⟨_other, _there, otherHeavy, otherPositive⟩ := lists.weight accepted j
    rw [idle i, idle j, heavy, otherHeavy]
    push_cast
    linarith

/-- Addresses and weights as they were written. -/
theorem Lists.entries {n m : Nat} {up : Upstream n m} (lists : Lists served up)
    (accepted : Accepted served) :
    List.ofFn (fun i => ((up.primary.peer i).name, (up.primary.peer i).weight)) =
      served.map fun server => (server.1 ++ ":" ++ toString wikiPort, server.2) := by
  have mapped := congrArg (List.map fun peer : RrPeer => (peer.name, peer.weight)) lists.peers
  rw [List.map_ofFn, List.map_map] at mapped
  refine mapped.trans (List.map_congr_left ?_)
  intro server listed
  have weight := of_decide_eq_true (accepted.2 server listed)
  have same : (servedPeer server).weight = server.2 := Int.toNat_of_nonneg (by omega)
  exact Prod.ext rfl same

theorem Lists.weightOf {n m : Nat} {up : Upstream n m} (lists : Lists served up)
    (accepted : Accepted served) : Nginx.weightOf up.primary.peer = (served.map Prod.snd).sum := by
  have entries := congrArg (List.map Prod.snd) (lists.entries accepted)
  rw [List.map_ofFn, List.map_map] at entries
  have sums := congrArg List.sum entries
  rw [List.sum_ofFn] at sums
  exact sums

/-- The shares of requests that are open at once. -/
theorem Lists.shares {n m : Nat} {up : Upstream n m} (lists : Lists served up)
    (accepted : Accepted served) (times : List Int)
    (room : ∀ server ∈ served, ((times.length : Int) + 1) * server.2 < 2 ^ 64) (i : Fin n) :
    ((times.length : Int) - served.length) * (up.primary.peer i).weight <
        (((routeAll up times).primary.peer i).conns + 1) * (served.map Prod.snd).sum ∧
      ((((routeAll up times).primary.peer i).conns : Int) - 1) * (served.map Prod.snd).sum <
        ((times.length : Int) + served.length) * (up.primary.peer i).weight := by
  have spread := (lists.spread accepted).routeAll
    (fun j => by
      obtain ⟨_server, _listed, heavy, atLeast⟩ := lists.weight accepted j
      rw [heavy]
      exact atLeast)
    times
    (fun j => by
      obtain ⟨server, listed, heavy, _atLeast⟩ := lists.weight accepted j
      rw [heavy, Nat.cast_zero, zero_add]
      exact room server listed) i
  have weights : Nginx.weightOf (routeAll up times).primary.peer = (served.map Prod.snd).sum := by
    rw [← lists.weightOf accepted]
    exact Finset.sum_congr rfl fun j _listed => spread.weights j
  have size : (n : Int) = served.length := congrArg Nat.cast lists.length
  have below := spread.proportional.le_share i
  have above := spread.proportional.share_le i
  rw [weights, spread.conns, spread.weights, Nat.zero_add, size] at below above
  exact ⟨below, above⟩

end Built

/-! ### Traffic of a run -/

/-- In every state of every run whose transfers succeed: nginx builds an upstream
with the nodes of the last update, under their addresses and weights, and of any
number of requests that are open at once each node has its share by weight, up
to one connection and one of each node's. -/
theorem deployed_shares_follow_weights (resolver : Resolver) (accepts : Accepts)
    (installed : Installed accepts) (est : Estimator) (cfg : Config) (base : UpstreamBlock)
    (created : List Info) (input : StartInput) (site : Site) (start state : State)
    (current : Option Site) (positive : 1 ≤ cfg.L) (ordered : cfg.L ≤ cfg.H)
    (small : cfg.H ≤ maxInt) (nonempty : created ≠ [])
    (dotted : ∀ info ∈ created, dottedIp info.privateIpAddress = true)
    (fresh : site.prevIpWeight = []) (idle : site.cycle = none)
    (delivered : input.initialSent = true ∧ input.sent = true)
    (started : startUp cfg base created input = some start)
    (reach : Reach (monitored (step est cfg) (observeSite resolver accepts))
      (fun tracked => Delivered tracked.1)
      (start, startSite resolver accepts site created input start) (state, current))
    (two : 2 ≤ state.upstream.length) (times : List Int)
    (room : ∀ node ∈ state.upstream, ((times.length : Int) + 1) * node.weight < 2 ^ 64) :
    ∃ now upstream up, current = some now ∧ now.cycle = some [upstream] ∧
      upstream.leastConn = true ∧
      initRoundRobin (String.ofList upstream.host) upstream.servers = some up ∧
      List.ofFn (fun i => ((up.primary.peer i).name, (up.primary.peer i).weight)) =
        state.upstream.map
          (fun node => (node.info.privateIpAddress ++ ":" ++ toString wikiPort, node.weight)) ∧
      ∀ i, (((times.length : Int) - state.upstream.length) * (up.primary.peer i).weight <
          (((routeAll up times).primary.peer i).conns + 1) * (state.upstream.map Node.weight).sum) ∧
        ((((routeAll up times).primary.peer i).conns : Int) - 1) *
            (state.upstream.map Node.weight).sum <
          ((times.length : Int) + state.upstream.length) * (up.primary.peer i).weight := by
  obtain ⟨service, followed⟩ := reach_current installed positive ordered small dotted started
    (current_startSite installed positive ordered small nonempty dotted fresh idle
      delivered started) reach
  have deployed : state.upstream.map Node.entry ≠ [] := by
    intro empty
    rw [List.map_eq_nil_iff.mp empty] at two
    cases two
  have served : service.served = state.upstream.map Node.entry := followed.served deployed
  have accepted : Accepted (state.upstream.map Node.entry) := served ▸ followed.sound.served
  obtain ⟨up, built, lists⟩ := initRoundRobin_served (String.ofList "wiki-app".toList)
    (show 2 ≤ (state.upstream.map Node.entry).length by rw [List.length_map]; exact two)
  have fits : ∀ server ∈ state.upstream.map Node.entry,
      ((times.length : Int) + 1) * server.2 < 2 ^ 64 := by
    intro server member
    obtain ⟨node, listed, rfl⟩ := List.mem_map.mp member
    exact room node listed
  refine ⟨service.site, wikiUpstream ((state.upstream.map Node.entry).map servedLine), up,
    followed.texts, ?_, rfl, built, ?_, ?_⟩
  · change some (servedUpstreams service.served) = _
    rw [served]
    rfl
  · refine (lists.entries accepted).trans ?_
    rw [List.map_map]
    rfl
  · intro i
    have sums : ((state.upstream.map Node.entry).map Prod.snd).sum =
        (state.upstream.map Node.weight).sum := by
      rw [List.map_map]
      rfl
    have size : ((state.upstream.map Node.entry).length : Int) = state.upstream.length := by
      rw [List.length_map]
    have shares := lists.shares accepted times fits i
    rw [sums, size] at shares
    exact shares

/-- The on-demand node of weight 1 is back beside two burstable nodes of weight
100: of 42 open requests it has at most one. -/
theorem deployed_shares_follow_weights_sample :
    ∃ start state current, sampleStart sampleConfig = some start ∧
      state.upstream.map Node.entry =
        [("172.31.0.1", 1), ("172.31.0.3", 100), ("172.31.0.2", 100)] ∧
      Reach (monitored (step (policies sampleConfig) sampleConfig)
        (observeSite sampleResolver sampleAccepts)) (fun tracked => Delivered tracked.1)
        (start, startSite sampleResolver sampleAccepts sampleSite sampleCreated
          ⟨true, true, some 0, fun _ => 0⟩ start) (state, current) ∧
      ∃ now upstream up, current = some now ∧ now.cycle = some [upstream] ∧
        upstream.leastConn = true ∧
        initRoundRobin (String.ofList upstream.host) upstream.servers = some up ∧
        List.ofFn (fun i => ((up.primary.peer i).name, (up.primary.peer i).weight)) =
          state.upstream.map
            (fun node => (node.info.privateIpAddress ++ ":" ++ toString wikiPort, node.weight)) ∧
        ∀ i, (((42 : Int) - 3) * (up.primary.peer i).weight <
            (((routeAll up (List.replicate 42 0)).primary.peer i).conns + 1) * 201) ∧
          ((((routeAll up (List.replicate 42 0)).primary.peer i).conns : Int) - 1) * 201 <
            ((42 : Int) + 3) * (up.primary.peer i).weight := by
  have seen : (sampleRun sampleConfig Delivered
      (List.replicate 22 sampleMain ++ List.replicate 3 (sampleShort .empty))).map
        (fun state => state.upstream.map Node.entry) =
      some [("172.31.0.1", 1), ("172.31.0.3", 100), ("172.31.0.2", 100)] := by decide +kernel
  obtain ⟨state, ran, listed⟩ := Option.map_eq_some_iff.mp seen
  obtain ⟨start, started, reach⟩ := sampleRun_reach ran
  obtain ⟨current, tracked⟩ := reach.monitor (observeSite sampleResolver sampleAccepts)
    (startSite sampleResolver sampleAccepts sampleSite sampleCreated
      ⟨true, true, some 0, fun _ => 0⟩ start)
  have three : state.upstream.length = 3 := by
    rw [← List.length_map Node.entry, listed]
    rfl
  have weights : state.upstream.map Node.weight = [1, 100, 100] := by
    have seconds := congrArg (List.map Prod.snd) listed
    rw [List.map_map] at seconds
    exact seconds
  have room : ∀ node ∈ state.upstream,
      (((List.replicate 42 (0 : Int)).length : Int) + 1) * node.weight < 2 ^ 64 := by
    intro node member
    have weight := List.mem_map_of_mem (f := Node.weight) member
    rw [weights] at weight
    simp only [List.mem_cons, List.not_mem_nil, or_false] at weight
    rw [List.length_replicate]
    omega
  have traffic := deployed_shares_follow_weights sampleResolver sampleAccepts
    sampleAccepts_installed (policies sampleConfig) sampleConfig ⟨"least_conn", []⟩ sampleCreated
    ⟨true, true, some 0, fun _ => 0⟩ sampleSite start state current (by decide) (by decide)
    (by decide) (by decide) (by decide +kernel) rfl rfl ⟨rfl, rfl⟩ started tracked
    (by rw [three]; decide) (List.replicate 42 0) room
  rw [three, weights, List.length_replicate] at traffic
  exact ⟨start, state, current, started, listed, tracked, traffic⟩

end AutoBurst.Conf
