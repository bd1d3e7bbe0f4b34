/-
The smooth weighted round robin of `ngx_http_upstream_get_peer`. While no peer
fails, each of the primary peers is chosen in every window of as many choices as
the weights sum to exactly as often as its weight says.
-/

import AutoBurst.Lib.Reach
import AutoBurst.Lib.Rotation
import AutoBurst.Nginx.Proportion
import AutoBurst.Nginx.Requests

namespace AutoBurst.Nginx

open CountedLoop Rotation Runs

variable {n m : Nat}

/-! ### One pass over peers that are all eligible -/

def RrPeer.raised (peer : RrPeer) : Int := peer.currentWeight + peer.effectiveWeight

def BestBefore (peer : Fin n → RrPeer) (stop : Nat) (best : Fin n) : Prop :=
  best.val < stop ∧ (∀ j : Fin n, j.val < stop → (peer j).raised ≤ (peer best).raised) ∧
    ∀ j, j < best → (peer j).raised < (peer best).raised

structure RrWalk (peer : Fin n → RrPeer) (stop : Nat) (pass : RrPass n) : Prop where
  peers : ∀ i : Fin n, pass.tally.peer i = if i.val < stop then (peer i).gain else peer i
  total : pass.tally.total = ∑ i : Fin n, if i.val < stop then (peer i).effectiveWeight else 0
  best : stop = 0 ∧ pass.best = none ∨
    ∃ best, pass.best = some best ∧ BestBefore peer stop best

section Pass

variable {now : Int} {tried : List Nat} {peer : Fin n → RrPeer}

theorem rrStep_of_eligible {pass : RrPass n} {i : Fin n}
    (isEligible : eligible now tried pass.tally.peer i = true) :
    rrStep now tried pass i =
      match pass.best with
      | none => { tally := pass.tally.take i, best := some i }
      | some best =>
          if ((pass.tally.take i).peer i).currentWeight >
              ((pass.tally.take i).peer best).currentWeight then
            { tally := pass.tally.take i, best := some i }
          else { tally := pass.tally.take i, best := some best } := by
  unfold eligible at isEligible
  simp only [Bool.and_eq_true, Bool.not_eq_true'] at isEligible
  obtain ⟨⟨⟨untried, up⟩, live⟩, room⟩ := isEligible
  unfold rrStep
  rw [untried, up, live, room]
  rfl

private theorem raised_taken {pass : RrPass n} {i : Fin n} (walked : RrWalk peer i pass) :
    (∀ j : Fin n, (pass.tally.take i).peer j =
        if j.val < i.val + 1 then (peer j).gain else peer j) ∧
      (pass.tally.take i).total =
        ∑ j : Fin n, if j.val < i.val + 1 then (peer j).effectiveWeight else 0 := by
  have here : pass.tally.peer i = peer i := by
    rw [walked.peers i, if_neg (Nat.lt_irrefl _)]
  constructor
  · intro j
    change Function.update pass.tally.peer i (pass.tally.peer i).gain j = _
    by_cases same : j = i
    · subst same
      rw [Function.update_self, here, if_pos (Nat.lt_succ_self _)]
    · have apart : j.val ≠ i.val := fun equal => same (Fin.ext equal)
      have order : j.val < i.val ↔ j.val < i.val + 1 := by omega
      rw [Function.update_of_ne same, walked.peers j]
      simp only [order]
  · change pass.tally.total + (pass.tally.peer i).effectiveWeight = _
    rw [walked.total, here, ← Finset.sum_erase_add _ _ (Finset.mem_univ i),
      ← Finset.sum_erase_add _ _ (Finset.mem_univ i), if_neg (Nat.lt_irrefl _),
      if_pos (Nat.lt_succ_self _), add_zero]
    congr 1
    apply Finset.sum_congr rfl
    intro j erased
    have apart : j.val ≠ i.val := fun equal => (Finset.mem_erase.mp erased).1 (Fin.ext equal)
    have order : j.val < i.val ↔ j.val < i.val + 1 := by omega
    simp only [order]

/-- A peer takes the lead only with a larger weight. -/
theorem rrStep_rrWalk {pass : RrPass n} {i : Fin n}
    (isEligible : eligible now tried pass.tally.peer i = true) (walked : RrWalk peer i pass) :
    RrWalk peer (i.val + 1) (rrStep now tried pass i) := by
  obtain ⟨peers, total⟩ := raised_taken walked
  have raised : ∀ j : Fin n, j.val < i.val + 1 →
      ((pass.tally.take i).peer j).currentWeight = (peer j).raised := by
    intro j before
    rw [peers j, if_pos before]
    rfl
  rw [rrStep_of_eligible isEligible]
  rcases walked.best with ⟨none, noBest⟩ | ⟨best, isBest, before, leads, first⟩
  · rw [noBest]
    refine ⟨peers, total, .inr ⟨i, rfl, Nat.lt_succ_self _, ?_, ?_⟩⟩
    · intro j below
      have same : j = i := Fin.ext (by omega)
      rw [same]
    · intro j below
      have := Fin.lt_def.mp below
      omega
  · rw [isBest]
    dsimp only
    rw [raised i (Nat.lt_succ_self _), raised best (Nat.lt_succ_of_lt before)]
    by_cases better : (peer i).raised > (peer best).raised
    · rw [if_pos better]
      refine ⟨peers, total, .inr ⟨i, rfl, Nat.lt_succ_self _, ?_, ?_⟩⟩
      · intro j below
        rcases Nat.lt_succ_iff_lt_or_eq.mp below with earlier | same
        · exact (leads j earlier).trans better.le
        · rw [Fin.ext same]
      · intro j below
        exact (leads j (Fin.lt_def.mp below)).trans_lt better
    · rw [if_neg better]
      refine ⟨peers, total, .inr ⟨best, rfl, Nat.lt_succ_of_lt before, ?_, first⟩⟩
      intro j below
      rcases Nat.lt_succ_iff_lt_or_eq.mp below with earlier | same
      · exact leads j earlier
      · rw [Fin.ext same]
        exact not_lt.mp better

private theorem eligible_gain {walked : Fin n → RrPeer} {i : Fin n}
    (same : walked i = peer i) :
    eligible now tried walked i = eligible now tried peer i := by
  unfold eligible
  rw [same]

theorem loop_rrWalk (all : ∀ i, eligible now tried peer i = true) :
    RrWalk peer n (loopFrom (rrStep now tried) 0 { tally := .start peer, best := none }) := by
  apply loopFrom_invariant (rrStep now tried) (fun stop => RrWalk peer stop)
  · intro i pass walked
    apply rrStep_rrWalk _ walked
    rw [eligible_gain (walked.peers i |>.trans (if_neg (Nat.lt_irrefl _)))]
    exact all i
  · exact Nat.zero_le n
  · exact ⟨fun i => rfl, by simp [Tally.start], .inl ⟨rfl, rfl⟩⟩

structure Rotated (now : Int) (peer : Fin n → RrPeer) (pick : Pick n) : Prop where
  best : BestBefore peer n pick.best
  peers : ∀ i, pick.peer i =
    if i = pick.best then
      ((peer i).gain.settle now (∑ j, (peer j).effectiveWeight)).connect
    else (peer i).gain

theorem getPeer_rotated (one : Fin n) (all : ∀ i, eligible now tried peer i = true) :
    ∃ pick, getPeer now tried peer = some pick ∧ Rotated now peer pick := by
  have walked := loop_rrWalk all
  unfold getPeer
  generalize loopFrom (rrStep now tried) 0 { tally := .start peer, best := none } = pass at walked
  have gained : ∀ i, pass.tally.peer i = (peer i).gain := by
    intro i
    rw [walked.peers i, if_pos i.isLt]
  have total : pass.tally.total = ∑ j, (peer j).effectiveWeight := by
    rw [walked.total]
    apply Finset.sum_congr rfl
    intro j _listed
    exact if_pos j.isLt
  rcases walked.best with ⟨empty, _noBest⟩ | ⟨best, isBest, leads⟩
  · exact absurd one.isLt (by omega)
  · dsimp only
    rw [isBest, Option.map_some]
    refine ⟨_, rfl, leads, ?_⟩
    intro i
    change Function.update pass.tally.peer best _ i = _
    by_cases chosen : i = best
    · rw [if_pos chosen, chosen, Function.update_self, gained best, total]
    · rw [if_neg chosen, Function.update_of_ne chosen, gained i]

end Pass

/-! ### Traffic without failures -/

/-- A request that gets its first peer, or one that frees a peer; its own state
is arbitrary. -/
inductive Traffic (n m : Nat)
  | get (now : Int)
  | free (now : Int) (rrp : RrPeerData n m) (pc : PeerConnection) (state : Nat)

/-- `chosen` is a ghost: the peers returned so far, in order. -/
structure Rotating (n m : Nat) where
  up : Upstream n m
  chosen : List (Fin n ⊕ Fin m)

def Rotating.step (state : Rotating n m) : Traffic n m → Option (Rotating n m)
  | .get now =>
      let out := getRoundRobinPeer now state.up (initRoundRobinPeer state.up).1
        (initRoundRobinPeer state.up).2
      some { up := out.up, chosen := state.chosen ++ out.returned.toList }
  | .free now rrp pc freeState =>
      (freeRoundRobinPeer now state.up rrp pc freeState).map fun freed =>
        { state with up := freed.1 }

def Unfailed (_state : Rotating n m) : Traffic n m → Prop
  | .get _ => True
  | .free _ _ _ freeState => freeState &&& peerFailed = 0

structure InStep [Nonempty (Fin n)] (share : Fin n → ℕ) (state : Rotating n m) : Prop where
  several : state.up.primary.single = false
  healthy : Healthy state.up.primary.peer
  weight : ∀ i, (state.up.primary.peer i).weight = share i
  effective : ∀ i, (state.up.primary.peer i).effectiveWeight = share i
  turns : ∃ turns, (∀ i, (state.up.primary.peer i).currentWeight =
      (turn share)^[turns] (fun _ => 0) i) ∧
    state.chosen = (winners share (fun _ => 0) turns).map .inl

section Traffic

variable [Nonempty (Fin n)] {share : Fin n → ℕ} {state : Rotating n m}

/-- A pick by the pass is a turn of the rotation. -/
private theorem Rotated.turn {now : Int} {peer : Fin n → RrPeer} {pick : Pick n}
    (rotated : Rotated now peer pick) (effective : ∀ i, (peer i).effectiveWeight = share i) :
    pick.best = winner share (fun i => (peer i).currentWeight) ∧
      ∀ i, (pick.peer i).currentWeight = turn share (fun i => (peer i).currentWeight) i := by
  obtain ⟨_within, leads, first⟩ := rotated.best
  have raised : ∀ i, (peer i).raised = (peer i).currentWeight + share i := by
    intro i
    unfold RrPeer.raised
    rw [effective i]
  have best : winner share (fun i => (peer i).currentWeight) = pick.best := by
    apply eq_leader
    · intro j
      rw [← raised, ← raised]
      exact leads j j.isLt
    · intro j before
      rw [← raised, ← raised]
      exact first j before
  have total : ∑ j, (peer j).effectiveWeight = (whole share : Int) := by
    unfold whole
    push_cast
    exact Finset.sum_congr rfl fun j _listed => effective j
  refine ⟨best.symm, ?_⟩
  intro i
  rw [rotated.peers i, total]
  unfold Rotation.turn
  rw [best]
  by_cases chosen : i = pick.best
  · rw [if_pos chosen, if_pos chosen, ← effective i]
    rfl
  · rw [if_neg chosen, if_neg chosen, sub_zero, ← effective i]
    rfl

omit [Nonempty (Fin n)] in
private theorem Rotated.keeps {now : Int} {peer : Fin n → RrPeer} {pick : Pick n}
    (rotated : Rotated now peer pick) (healthy : Healthy peer)
    (weight : ∀ i, (peer i).weight = share i)
    (effective : ∀ i, (peer i).effectiveWeight = share i) :
    Healthy pick.peer ∧ (∀ i, (pick.peer i).weight = share i) ∧
      ∀ i, (pick.peer i).effectiveWeight = share i := by
  have gained : ∀ i, (peer i).gain.effectiveWeight = share i := by
    intro i
    unfold RrPeer.gain
    dsimp only
    rw [effective i, weight i, if_neg (lt_irrefl _)]
  refine ⟨⟨?_, ?_, ?_⟩, ?_, ?_⟩
  all_goals
    intro i
    rw [rotated.peers i]
  · split <;> exact healthy.notDown i
  · split <;> exact healthy.noFails i
  · split <;> exact healthy.noLimit i
  · split <;> exact weight i
  · split <;> exact gained i

private theorem InStep.get (inStep : InStep share state) (now : Int) {after : Rotating n m}
    (taken : state.step (.get now) = some after) : InStep share after := by
  have isEligible := inStep.healthy.eligible now state.up
  obtain ⟨pick, found, rotated⟩ := getPeer_rotated (Classical.arbitrary (Fin n)) isEligible
  have out : getRoundRobinPeer now state.up (initRoundRobinPeer state.up).1
      (initRoundRobinPeer state.up).2 =
      pick.inPrimary state.up (initRoundRobinPeer state.up).1 (initRoundRobinPeer state.up).2 := by
    have inside : roundRobinIn now (initRoundRobinPeer state.up).1.tried state.up.primary =
        some pick := by
      unfold roundRobinIn
      rw [inStep.several]
      exact found
    have group : (initRoundRobinPeer state.up).1.peers = .primary := rfl
    unfold getRoundRobinPeer getFrom
    rw [group]
    dsimp only
    rw [inside]
  have afterEq : after = { up := { state.up with primary := { state.up.primary with
      peer := pick.peer } }, chosen := state.chosen ++ [.inl pick.best] } := by
    rw [← Option.some.inj taken, out]
    rfl
  obtain ⟨best, current⟩ := rotated.turn inStep.effective
  obtain ⟨healthy, weight, effective⟩ := rotated.keeps inStep.healthy inStep.weight inStep.effective
  obtain ⟨turns, currents, chosen⟩ := inStep.turns
  have before : (fun i => (state.up.primary.peer i).currentWeight) =
      (turn share)^[turns] (fun _ => 0) := funext currents
  subst afterEq
  refine ⟨inStep.several, healthy, weight, effective, turns + 1, ?_, ?_⟩
  · intro i
    rw [Function.iterate_succ_apply', ← before]
    exact current i
  · rw [winners_add, List.map_append, ← before, chosen, best]
    rfl

omit [Nonempty (Fin n)] in
/-- A release that reports no failure moves no weight. -/
private theorem release_unfailed (peer : RrPeer) (single : Bool) (now : Int) {freeState : Nat}
    (unfailed : freeState &&& peerFailed = 0) :
    ∃ fails conns, (fails = 0 ∨ fails = peer.fails) ∧
      peer.release single now freeState = { peer with fails := fails, conns := conns } := by
  unfold RrPeer.release
  split
  · exact ⟨peer.fails, uintPred peer.conns, .inr rfl, rfl⟩
  · unfold RrPeer.noteState
    have clean : ¬(freeState &&& peerFailed != 0) = true := by
      rw [unfailed]
      decide
    rw [if_neg clean]
    split
    · exact ⟨0, uintPred peer.conns, .inl rfl, rfl⟩
    · exact ⟨peer.fails, uintPred peer.conns, .inr rfl, rfl⟩

private theorem InStep.releaseAt (inStep : InStep share state) (i : Fin n) (single : Bool)
    (now : Int) {freeState : Nat} (unfailed : freeState &&& peerFailed = 0) :
    InStep share { state with up := { state.up with
      primary := state.up.primary.releaseAt i single now freeState } } := by
  obtain ⟨fails, conns, forgiven, released⟩ :=
    release_unfailed (state.up.primary.peer i) single now unfailed
  have peers : ∀ j, (state.up.primary.releaseAt i single now freeState).peer j =
      if j = i then { state.up.primary.peer i with fails := fails, conns := conns }
      else state.up.primary.peer j := by
    intro j
    change Function.update state.up.primary.peer i _ j = _
    by_cases same : j = i
    · rw [if_pos same, same, Function.update_self, released]
    · rw [if_neg same, Function.update_of_ne same]
  obtain ⟨turns, currents, chosen⟩ := inStep.turns
  refine ⟨inStep.several, ⟨?_, ?_, ?_⟩, ?_, ?_, turns, ?_, chosen⟩
  all_goals
    intro j
    dsimp only
    rw [peers j]
    split
  · exact inStep.healthy.notDown i
  · exact inStep.healthy.notDown j
  · rcases forgiven with zero | same
    · exact zero
    · exact same.trans (inStep.healthy.noFails i)
  · exact inStep.healthy.noFails j
  · exact inStep.healthy.noLimit i
  · exact inStep.healthy.noLimit j
  · rename_i same
    rw [same]
    exact inStep.weight i
  · exact inStep.weight j
  · rename_i same
    rw [same]
    exact inStep.effective i
  · exact inStep.effective j
  · rename_i same
    rw [same]
    exact currents i
  · exact currents j

private theorem InStep.of_step (inStep : InStep share state) {event : Traffic n m}
    (unfailed : Unfailed state event) {after : Rotating n m}
    (taken : state.step event = some after) : InStep share after := by
  cases event with
  | get now => exact inStep.get now taken
  | free now rrp pc freeState =>
      obtain ⟨freed, released, rfl⟩ := Option.map_eq_some_iff.mp taken
      unfold freeRoundRobinPeer at released
      cases current : rrp.current with
      | none =>
          rw [current] at released
          cases released
      | some slot =>
          rw [current] at released
          cases slot with
          | inl i =>
              cases released
              exact inStep.releaseAt i _ now unfailed
          | inr i =>
              obtain ⟨backup, _next, rfl⟩ := Option.map_eq_some_iff.mp released
              exact { inStep with }

end Traffic

/-- A peer that was just built has its full weight and owes nothing. -/
theorem Built.fresh {up : Upstream n m} (built : Built up) (i : Fin n) :
    (up.primary.peer i).currentWeight = 0 ∧
      (up.primary.peer i).effectiveWeight = (up.primary.peer i).weight := by
  have there : up.peerAt (.inl i) = some (up.primary.peer i) := rfl
  obtain ⟨server, name, configured⟩ := built.configured there
  rw [configured]
  exact ⟨rfl, rfl⟩

private def shareOf (peers : RrPeers n) (i : Fin n) : ℕ := (peers.peer i).weight.toNat

/-- Whatever was chosen before and whenever peers are freed in between: as many
choices in a row as the weights sum to hold each peer as often as its weight. -/
theorem roundRobin_window_exact {up : Upstream n m} (built : Built up)
    (several : up.primary.single = false) (healthy : Healthy up.primary.peer)
    {state : Rotating n m}
    (reach : Reach Rotating.step Unfailed { up := up, chosen := [] } state)
    {before window after : List (Fin n ⊕ Fin m)}
    (split : state.chosen = before ++ window ++ after)
    (round : window.length = up.primary.totalWeight) (i : Fin n) :
    (window.countP (fun slot => decide (slot = .inl i)) : Int) = (up.primary.peer i).weight := by
  have : Nonempty (Fin n) := ⟨i⟩
  have ok := built.ok.primary
  have weight : ∀ j, (up.primary.peer j).weight = shareOf up.primary j := fun j =>
    (Int.toNat_of_nonneg (ok.weight_nonneg j)).symm
  have launch : InStep (shareOf up.primary) { up := up, chosen := [] } :=
    { several := several
      healthy := healthy
      weight := weight
      effective := fun j => (built.fresh j).2.trans (weight j)
      turns := ⟨0, fun j => (built.fresh j).1, rfl⟩ }
  have inStep := reach.invariant (InStep (shareOf up.primary)) launch
    (fun _before _event _after taken unfailed held => held.of_step unfailed taken)
  obtain ⟨turns, _currents, chosen⟩ := inStep.turns
  rw [chosen] at split
  obtain ⟨both, last, apart, bothEq, _lastEq⟩ := List.map_eq_append_iff.mp split
  obtain ⟨first, middle, bothApart, _firstEq, middleEq⟩ := List.map_eq_append_iff.mp bothEq
  have size : (whole (shareOf up.primary) : Int) = up.primary.totalWeight := by
    rw [← ok.total]
    unfold whole
    push_cast
    exact Finset.sum_congr rfl fun j _listed => (weight j).symm
  have full : middle.length = whole (shareOf up.primary) := by
    rw [← middleEq, List.length_map] at round
    omega
  rw [bothApart] at apart
  have same : window.countP (fun slot => decide (slot = .inl i)) = middle.count i := by
    rw [← middleEq, List.countP_map, List.count_eq_countP]
    apply List.countP_congr
    intro j _listed
    simp
  rw [same, count_window apart full i, weight i]

def unevenServers : List Server :=
  [{ addrs := ["10.0.0.1:5000"], weight := 5, maxConns := 0, maxFails := 1,
     failTimeout := 10, down := false, backup := false },
   { addrs := ["10.0.0.2:5000"], weight := 2, maxConns := 0, maxFails := 1,
     failTimeout := 10, down := false, backup := false }]

def unevenUpstream : Upstream 2 0 :=
  (initRoundRobin "wiki-app" unevenServers).get rfl

theorem unevenUpstream_built : Built unevenUpstream :=
  Built.servers "wiki-app" unevenServers unevenUpstream (by decide) rfl

/-- Two of the seven choices after the first two. -/
theorem roundRobin_window_exact_uneven :
    ∃ state, run (guarded Rotating.step (fun _ _ => True))
        { up := unevenUpstream, chosen := [] } (List.replicate 9 (.get 7)) = some state ∧
      ((state.chosen.drop 2).countP (fun slot => decide (slot = .inl 1)) : Int) = 2 := by
  have counts : (run (guarded Rotating.step (fun _ _ => True))
      { up := unevenUpstream, chosen := [] } (List.replicate 9 (.get 7))).map
      (fun state => state.chosen.length) = some 9 := by decide +kernel
  obtain ⟨state, ran, length⟩ := Option.map_eq_some_iff.mp counts
  have reach : Reach Rotating.step Unfailed { up := unevenUpstream, chosen := [] } state := by
    apply reach_of_guarded_actions ran
    intro event listed later _always
    rw [List.eq_of_mem_replicate listed]
    exact trivial
  have split : state.chosen = state.chosen.take 2 ++ state.chosen.drop 2 ++ [] := by
    rw [List.append_nil, List.take_append_drop]
  have round : (state.chosen.drop 2).length = unevenUpstream.primary.totalWeight := by
    rw [List.length_drop, length]
    decide
  exact ⟨state, ran, roundRobin_window_exact unevenUpstream_built rfl
    ⟨by decide, by decide, by decide⟩ reach split round 1⟩

end AutoBurst.Nginx
