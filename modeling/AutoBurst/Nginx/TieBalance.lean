/-
The weights that break ties stay balanced. A tie pass is a smooth round: the
peers it runs over gain their effective weights, the chosen one pays the total
back. Failures and recoveries move effective weights only within [0, weight].
So over any sequence of calls the current weights of a group sum to zero and
none leaves [-(n - 1) W, (n - 1) W], where W is the group's total weight.
-/

import AutoBurst.Lib.Reach
import AutoBurst.Lib.SmoothRound
import AutoBurst.Nginx.LeastConnWalks
import Mathlib.Algebra.BigOperators.Ring.Multiset
import Mathlib.Data.Fintype.BigOperators

namespace AutoBurst.Nginx

open SmoothRound Runs

variable {n m : Nat} {now : Int} {tried : List Nat}

/-! ### Runs of calls -/

/-- A call by any request: its own state is arbitrary. -/
inductive Call (n m : Nat)
  | get (now : Int) (rrp : RrPeerData n m) (pc : PeerConnection)
  | free (now : Int) (rrp : RrPeerData n m) (pc : PeerConnection) (state : Nat)

def callStep (up : Upstream n m) : Call n m → Option (Upstream n m)
  | .get now rrp pc => some (getLeastConnPeer now up rrp pc).up
  | .free now rrp pc state => (freeRoundRobinPeer now up rrp pc state).map Prod.fst

inductive Built : {n m : Nat} → Upstream n m → Prop
  | servers (host : String) (servers : List Server)
      (up : Upstream (peersOf false servers).length (peersOf true servers).length)
      (positive : ∀ server ∈ servers, 1 ≤ server.weight)
      (built : initRoundRobin host servers = some up) : Built up
  | implicit (host : String) (addrs : List String) : Built (initImplicit host addrs)

/-! ### The invariant of a group -/

def InRange (one : RrPeer) : Prop :=
  0 ≤ one.effectiveWeight ∧ one.effectiveWeight ≤ one.weight

structure GroupOk (peers : RrPeers n) (peer : Fin n → RrPeer) : Prop where
  total : ∑ i, (peer i).weight = peers.totalWeight
  effective : ∀ i, InRange (peer i)
  balanced : Balanced (peers.totalWeight : Int) (fun i => (peer i).currentWeight)

section Group

variable {peers : RrPeers n} {peer : Fin n → RrPeer}

theorem GroupOk.weight_nonneg (ok : GroupOk peers peer) (i : Fin n) :
    0 ≤ (peer i).weight :=
  (ok.effective i).1.trans (ok.effective i).2

theorem GroupOk.weight_le (ok : GroupOk peers peer) (i : Fin n) :
    (peer i).weight ≤ peers.totalWeight := by
  rw [← ok.total]
  exact Finset.single_le_sum (fun j _ => ok.weight_nonneg j) (Finset.mem_univ i)

theorem GroupOk.current_abs_le (ok : GroupOk peers peer) (i : Fin n) :
    |(peer i).currentWeight| ≤ ((n : Int) - 1) * peers.totalWeight := by
  have bound := ok.balanced.abs_current_le i
  rw [Fintype.card_fin, mul_comm] at bound
  exact bound

/-- Changing one peer without touching its weight and current weight. -/
theorem GroupOk.updateAt (ok : GroupOk peers peer) (i : Fin n) {changed : RrPeer}
    (current : changed.currentWeight = (peer i).currentWeight)
    (weight : changed.weight = (peer i).weight) (range : InRange changed) :
    GroupOk peers (Function.update peer i changed) := by
  have cases : ∀ j, Function.update peer i changed j =
      if j = i then changed else peer j := by
    intro j
    by_cases same : j = i
    · rw [if_pos same, same, Function.update_self]
    · rw [if_neg same, Function.update_of_ne same]
  have sameCurrent : (fun j => (Function.update peer i changed j).currentWeight) =
      fun j => (peer j).currentWeight := by
    funext j
    rw [cases j]
    split
    · rename_i same
      rw [current, same]
    · rfl
  refine ⟨?_, ?_, sameCurrent ▸ ok.balanced⟩
  · rw [← ok.total]
    apply Finset.sum_congr rfl
    intro j _
    rw [cases j]
    split
    · rename_i same
      rw [weight, same]
    · rfl
  · intro j
    rw [cases j]
    split
    · exact range
    · exact ok.effective j

/-! ### A tie pass is a smooth round -/

private theorem TieAt.best_ran {first : Fin n} {pass : TiePass n}
    (walked : TieAt now tried peer first n pass) : pass.best ∈ pass.tally.ran := by
  rcases walked.chosen with member | ⟨atEnd, _⟩
  · exact member
  · exact absurd atEnd (Nat.ne_of_lt first.isLt)

private def TieAt.round {first : Fin n} {pass : TiePass n}
    (walked : TieAt now tried peer first n pass) :
    Round (fun i => (peer i).currentWeight) :=
  { takers := pass.tally.ran.toFinset
    share := fun i => (peer i).effectiveWeight
    winner := pass.best
    winnerTakes := List.mem_toFinset.mpr walked.best_ran
    winnerLeads := by
      intro i taker
      have leads := walked.leads i (List.mem_toFinset.mp taker)
      rw [walked.peers pass.best, if_pos walked.best_ran] at leads
      exact leads }

private theorem TieAt.total_eq_sum {first : Fin n} {stop : Nat} {pass : TiePass n}
    (walked : TieAt now tried peer first stop pass) :
    pass.tally.total = ∑ i ∈ pass.tally.ran.toFinset, (peer i).effectiveWeight := by
  rw [walked.total, List.sum_toFinset _ walked.nodup]

private theorem TieAt.choose_current {first : Fin n} {pass : TiePass n}
    (walked : TieAt now tried peer first n pass) (i : Fin n) :
    ((pass.choose now tried).peer i).currentWeight = walked.round.next i := by
  have paid : walked.round.paid = pass.tally.total := walked.total_eq_sum.symm
  have takes : i ∈ walked.round.takers ↔ i ∈ pass.tally.ran := List.mem_toFinset
  have before : (pass.tally.peer i).currentWeight = (peer i).currentWeight +
      (if i ∈ walked.round.takers then walked.round.share i else 0) := by
    rw [walked.peers i]
    by_cases member : i ∈ pass.tally.ran
    · rw [if_pos member, if_pos (takes.mpr member)]
      rfl
    · rw [if_neg member, if_neg (fun taker => member (takes.mp taker)), add_zero]
  unfold Round.next
  rw [paid, ← before]
  change (Function.update pass.tally.peer pass.best _ i).currentWeight = _
  by_cases chosen : i = pass.best
  · subst chosen
    rw [Function.update_self]
    change _ = _ - (if pass.best = pass.best then pass.tally.total else 0)
    rw [if_pos rfl]
    rfl
  · rw [Function.update_of_ne chosen]
    change _ = _ - (if i = pass.best then pass.tally.total else 0)
    rw [if_neg chosen, sub_zero]

private theorem InRange.gain {one : RrPeer} (range : InRange one) : InRange one.gain := by
  unfold InRange at range ⊢
  unfold RrPeer.gain
  dsimp only
  split <;> omega

private theorem choose_keeps (now : Int) (tried : List Nat) (pass : TiePass n) (i : Fin n) :
    ((pass.choose now tried).peer i).weight = (pass.tally.peer i).weight ∧
      ((pass.choose now tried).peer i).effectiveWeight =
        (pass.tally.peer i).effectiveWeight := by
  change (Function.update pass.tally.peer pass.best _ i).weight = _ ∧
    (Function.update pass.tally.peer pass.best _ i).effectiveWeight = _
  by_cases chosen : i = pass.best
  · subst chosen
    rw [Function.update_self]
    exact ⟨rfl, rfl⟩
  · rw [Function.update_of_ne chosen]
    exact ⟨rfl, rfl⟩

private theorem GroupOk.tieWalk (ok : GroupOk peers peer) {first : Fin n} {pass : TiePass n}
    (walked : TieAt now tried peer first n pass) :
    GroupOk peers (pass.choose now tried).peer where
  total := by
    rw [← ok.total]
    apply Finset.sum_congr rfl
    intro i _
    rw [(choose_keeps now tried pass i).1, walked.peers i]
    split <;> rfl
  effective := by
    intro i
    unfold InRange
    rw [(choose_keeps now tried pass i).1, (choose_keeps now tried pass i).2, walked.peers i]
    split
    · exact (ok.effective i).gain
    · exact ok.effective i
  balanced := by
    have same : (fun i => ((pass.choose now tried).peer i).currentWeight) =
        walked.round.next := funext walked.choose_current
    rw [same]
    apply ok.balanced.next
    · intro i _
      exact (ok.effective i).1
    · intro i _
      exact (ok.effective i).2.trans (ok.weight_le i)

/-- Without a tie nothing is gained and the choice pays zero. -/
private theorem GroupOk.noTie (ok : GroupOk peers peer) (now : Int) (tried : List Nat)
    (first : Fin n) :
    GroupOk peers
      ((⟨Tally.start peer, first⟩ : TiePass n).choose now tried).peer := by
  have current : (((peer first).settle now 0).connect).currentWeight =
      (peer first).currentWeight := sub_zero _
  exact ok.updateAt first current rfl (ok.effective first)

/-! ### Overflow -/

private theorem fitsInt_of_abs_le {value bound : Int} (within : |value| ≤ bound)
    (small : bound < 2 ^ 63) : fitsInt value = true := by
  unfold fitsInt
  rw [decide_eq_true_eq]
  have both := abs_le.mp within
  omega

private theorem GroupOk.total_le (ok : GroupOk peers peer) {first : Fin n} {stop : Nat}
    {pass : TiePass n} (walked : TieAt now tried peer first stop pass) :
    |pass.tally.total| ≤ peers.totalWeight := by
  rw [walked.total_eq_sum, abs_of_nonneg
    (Finset.sum_nonneg (fun i _ => (ok.effective i).1)), ← ok.total]
  calc ∑ i ∈ pass.tally.ran.toFinset, (peer i).effectiveWeight
      ≤ ∑ i ∈ pass.tally.ran.toFinset, (peer i).weight :=
        Finset.sum_le_sum (fun i _ => (ok.effective i).2)
    _ ≤ ∑ i, (peer i).weight :=
        Finset.sum_le_sum_of_subset_of_nonneg (Finset.subset_univ _)
          (fun i _ _ => ok.weight_nonneg i)

private theorem tieStep_tally (now : Int) (tried : List Nat) (pass : TiePass n) (i : Fin n) :
    (tieStep now tried pass i).tally = pass.tally ∨
      (tieStep now tried pass i).tally = pass.tally.take i := by
  rw [tieStep_eq]
  split
  · right
    dsimp only
    split <;> rfl
  · left
    rfl

private theorem GroupOk.take_overflow (ok : GroupOk peers peer)
    (small : (n : Int) * peers.totalWeight < 2 ^ 63) {first i : Fin n} {pass : TiePass n}
    (walked : TieAt now tried peer first i pass) (clean : pass.tally.overflow = false)
    (total : |(pass.tally.take i).total| ≤ peers.totalWeight) :
    (pass.tally.take i).overflow = false := by
  have untouched : pass.tally.peer i = peer i := by
    rw [walked.peers i, if_neg]
    intro member
    exact Nat.lt_irrefl _ (walked.within i member).2.1
  have range := ok.effective i
  have heaviest := ok.weight_le i
  have positive : (1 : Int) ≤ n := by
    have := i.isLt
    omega
  have whole : (peers.totalWeight : Int) ≤ n * peers.totalWeight := by
    nlinarith [Int.natCast_nonneg peers.totalWeight]
  have current := abs_le.mp (ok.current_abs_le i)
  have sumBound : |(peer i).gain.currentWeight| ≤ (n : Int) * peers.totalWeight := by
    apply abs_le.mpr
    change _ ≤ (peer i).currentWeight + (peer i).effectiveWeight ∧
      (peer i).currentWeight + (peer i).effectiveWeight ≤ _
    constructor <;> linarith [current.1, current.2, range.1, range.2]
  have weightBound : |(peer i).gain.effectiveWeight| ≤ (peers.totalWeight : Int) := by
    have after := range.gain
    rw [abs_of_nonneg after.1]
    exact after.2.trans heaviest
  have unfolded : (pass.tally.take i).overflow = (pass.tally.overflow ||
      !fitsInt (pass.tally.peer i).gain.currentWeight ||
      !fitsInt (pass.tally.take i).total ||
      !fitsInt (pass.tally.peer i).gain.effectiveWeight) := rfl
  rw [unfolded, untouched, clean, fitsInt_of_abs_le sumBound small,
    fitsInt_of_abs_le total (whole.trans_lt small),
    fitsInt_of_abs_le weightBound (whole.trans_lt small)]
  rfl

private theorem GroupOk.tiePass_overflow (ok : GroupOk peers peer)
    (small : (n : Int) * peers.totalWeight < 2 ^ 63) {first : Fin n}
    (firstEligible : eligible now tried peer first = true) :
    (tiePass now tried peer first).tally.overflow = false := by
  have walked : TieAt now tried peer first n (tiePass now tried peer first) ∧
      (tiePass now tried peer first).tally.overflow = false := tiePass_invariant
    (fun stop pass => TieAt now tried peer first stop pass ∧ pass.tally.overflow = false)
    ⟨tieAt_start, rfl⟩
    (by
      intro i pass later reached
      have next := tieStep_tieAt firstEligible i later reached.1
      refine ⟨next, ?_⟩
      have total := ok.total_le next
      rcases tieStep_tally now tried pass i with same | taken
      · rw [same]
        exact reached.2
      · rw [taken] at total ⊢
        exact ok.take_overflow small reached.1 reached.2 total)
  exact walked.2

/-! ### One call in a group -/

structure PickOk (peers : RrPeers n) (pick : Pick n) : Prop where
  group : GroupOk peers pick.peer
  noOverflow : (n : Int) * peers.totalWeight < 2 ^ 63 → pick.overflow = false

private theorem settle_overflow {pass : TiePass n}
    (ok : GroupOk peers (pass.choose now tried).peer)
    (small : (n : Int) * peers.totalWeight < 2 ^ 63)
    (clean : pass.tally.overflow = false) : (pass.choose now tried).overflow = false := by
  have settled : ((pass.choose now tried).peer pass.best).currentWeight =
      ((pass.tally.peer pass.best).settle now pass.tally.total).currentWeight := by
    change (Function.update pass.tally.peer pass.best _ pass.best).currentWeight = _
    rw [Function.update_self]
    rfl
  have bound := ok.current_abs_le pass.best
  rw [settled] at bound
  have smaller : ((n : Int) - 1) * peers.totalWeight < 2 ^ 63 := by
    nlinarith [Int.natCast_nonneg peers.totalWeight]
  change (pass.tally.overflow || !fitsInt _) = false
  rw [clean, fitsInt_of_abs_le bound smaller]
  rfl

theorem GroupOk.leastConnIn (ok : GroupOk peers peers.peer) {pick : Pick n}
    (found : leastConnIn now tried peers = some pick) : PickOk peers pick := by
  have scanned : FoundAt now tried peers.peer n (scanPeers now tried peers.peer) :=
    scanPeers_foundAt
  unfold Nginx.leastConnIn at found
  rcases scan : scanPeers now tried peers.peer with ⟨best, many⟩
  rw [scan] at found scanned
  cases best with
  | none => cases found
  | some first =>
      have pickEq := Option.some.inj found
      subst pickEq
      unfold breakTies
      by_cases isMany : many = true
      · simp only [if_pos isMany]
        have kept := ok.tieWalk (tiePass_tieAt scanned)
        exact ⟨kept, fun small => settle_overflow kept small (ok.tiePass_overflow small scanned)⟩
      · simp only [if_neg isMany]
        have kept := ok.noTie now tried first
        exact ⟨kept, fun small => settle_overflow kept small rfl⟩

/-- A single peer only gets a connection. -/
theorem GroupOk.getSingle (ok : GroupOk peers peers.peer) {pick : Pick n}
    (found : getSingle tried peers.peer = some pick) : PickOk peers pick := by
  unfold Nginx.getSingle at found
  split at found
  · rename_i nonempty
    dsimp only at found
    split at found
    · cases found
    · split at found
      · cases found
      · have pickEq := Option.some.inj found
        subst pickEq
        refine ⟨?_, fun _ => rfl⟩
        exact ok.updateAt ⟨0, nonempty⟩ rfl rfl (ok.effective ⟨0, nonempty⟩)
  · cases found

private theorem noteState_keeps (one : RrPeer) (now : Int) (state : Nat) :
    (one.noteState now state).currentWeight = one.currentWeight ∧
      (one.noteState now state).weight = one.weight := by
  unfold RrPeer.noteState
  split
  · exact ⟨rfl, rfl⟩
  · split <;> exact ⟨rfl, rfl⟩

/-- A failure lowers the effective weight, but not below zero. -/
private theorem InRange.noteState {one : RrPeer} (range : InRange one) (now : Int)
    (state : Nat) : InRange (one.noteState now state) := by
  unfold InRange at range ⊢
  rw [(noteState_keeps one now state).2]
  unfold RrPeer.noteState
  split
  · dsimp only
    have nonneg := Int.natCast_nonneg (uintOfInt one.weight / one.maxFails)
    generalize ((uintOfInt one.weight / one.maxFails : Nat) : Int) = lost at nonneg ⊢
    by_cases limited : (one.maxFails != 0) = true
    · simp only [if_pos limited]
      split <;> omega
    · simp only [if_neg limited]
      split <;> omega
  · split <;> exact range

theorem GroupOk.releaseAt (ok : GroupOk peers peers.peer) (i : Fin n) (single : Bool)
    (now : Int) (state : Nat) :
    GroupOk (peers.releaseAt i single now state)
      (peers.releaseAt i single now state).peer := by
  have kept : GroupOk peers (peers.releaseAt i single now state).peer := by
    unfold RrPeers.releaseAt RrPeer.release
    split
    · exact ok.updateAt i rfl rfl (ok.effective i)
    · exact ok.updateAt i (noteState_keeps (peers.peer i) now state).1
        (noteState_keeps (peers.peer i) now state).2 ((ok.effective i).noteState now state)
  exact ⟨kept.total, kept.effective, kept.balanced⟩

end Group

/-! ### Whole upstreams -/

structure UpstreamOk (up : Upstream n m) : Prop where
  primary : GroupOk up.primary up.primary.peer
  backup : ∀ backup, up.next = some backup →
    GroupOk backup backup.peer ∧ backup.single = false
  alone : up.primary.single = true → up.next = none

def Light (up : Upstream n m) : Prop :=
  (n : Int) * up.primary.totalWeight < 2 ^ 63 ∧
    ∀ backup, up.next = some backup → (m : Int) * backup.totalWeight < 2 ^ 63

structure OutcomeOk (up : Upstream n m) (outcome : Outcome n m) : Prop where
  upstream : UpstreamOk outcome.up
  noOverflow : Light up → outcome.overflow = false

private theorem UpstreamOk.inPrimary {up : Upstream n m} (ok : UpstreamOk up)
    {pick : Pick n} (picked : PickOk up.primary pick) (rrp : RrPeerData n m)
    (pc : PeerConnection) : OutcomeOk up (pick.inPrimary up rrp pc) :=
  ⟨⟨⟨picked.group.total, picked.group.effective, picked.group.balanced⟩, ok.backup, ok.alone⟩,
    fun light => picked.noOverflow light.1⟩

private theorem UpstreamOk.inBackup {up : Upstream n m} (ok : UpstreamOk up)
    {backup : RrPeers m} (next : up.next = some backup) {pick : Pick m}
    (picked : PickOk backup pick) (rrp : RrPeerData n m) (pc : PeerConnection) :
    OutcomeOk up (pick.inBackup up backup rrp pc) := by
  refine ⟨⟨ok.primary, ?_, ?_⟩, fun light => picked.noOverflow (light.2 backup next)⟩
  · intro other same
    have otherEq := Option.some.inj same
    subst otherEq
    exact ⟨⟨picked.group.total, picked.group.effective, picked.group.balanced⟩,
      (ok.backup backup next).2⟩
  · intro single
    rw [ok.alone single] at next
    cases next

private theorem UpstreamOk.busy {up : Upstream n m} (ok : UpstreamOk up)
    (rrp : RrPeerData n m) (pc : PeerConnection) (name : String) :
    OutcomeOk up (busy up rrp pc name) :=
  ⟨ok, fun _ => rfl⟩

/-- Both `get` functions keep the invariant when their choices in a group do. -/
private theorem UpstreamOk.getFrom {up : Upstream n m} (ok : UpstreamOk up)
    {inPrimary : List Nat → RrPeers n → Option (Pick n)}
    {inBackup : List Nat → RrPeers m → Option (Pick m)} (rrp : RrPeerData n m)
    (pc : PeerConnection)
    (primaryOk : rrp.peers = .primary → ∀ tried pick, inPrimary tried up.primary = some pick →
      PickOk up.primary pick)
    (backupOk : ∀ backup, up.next = some backup → ∀ tried pick,
      inBackup tried backup = some pick → PickOk backup pick) :
    OutcomeOk up (getFrom inPrimary inBackup up rrp pc) := by
  unfold Nginx.getFrom
  cases group : rrp.peers with
  | primary =>
      cases found : inPrimary rrp.tried up.primary with
      | some pick => exact ok.inPrimary (primaryOk group _ _ found) rrp pc
      | none =>
          cases next : up.next with
          | none => exact ok.busy _ _ _
          | some backup =>
              dsimp only
              cases again : inBackup rrp.toBackup.tried backup with
              | some pick => exact ok.inBackup next (backupOk backup next _ _ again) _ pc
              | none => exact ok.busy _ _ _
  | backup =>
      cases next : up.next with
      | none => exact ok.busy _ _ _
      | some backup =>
          dsimp only
          cases found : inBackup rrp.tried backup with
          | some pick => exact ok.inBackup next (backupOk backup next _ _ found) rrp pc
          | none => exact ok.busy _ _ _

theorem UpstreamOk.getLeastConnPeer {up : Upstream n m} (ok : UpstreamOk up) (now : Int)
    (rrp : RrPeerData n m) (pc : PeerConnection) :
    OutcomeOk up (getLeastConnPeer now up rrp pc) := by
  unfold Nginx.getLeastConnPeer
  by_cases single : rrp.single up = true
  · rw [if_pos single]
    unfold RrPeerData.single at single
    have alone : rrp.peers = .primary ∧ up.primary.single = true := by
      cases group : rrp.peers with
      | primary =>
          rw [group] at single
          exact ⟨rfl, single⟩
      | backup =>
          rw [group] at single
          cases next : up.next with
          | none =>
              rw [next] at single
              cases single
          | some backup =>
              rw [next] at single
              exact absurd single (by
                rw [Option.elim_some, (ok.backup backup next).2]
                exact Bool.false_ne_true)
    apply ok.getFrom
    · intro _group tried pick found
      unfold roundRobinIn at found
      rw [if_pos alone.2] at found
      exact ok.primary.getSingle found
    · intro backup next
      rw [ok.alone alone.2] at next
      cases next
  · rw [if_neg single]
    apply ok.getFrom
    · intro _group tried pick found
      exact ok.primary.leastConnIn found
    · intro backup next tried pick found
      have several := (ok.backup backup next).2
      unfold leastConnOrSingle at found
      rw [if_neg (by rw [several]; exact Bool.false_ne_true)] at found
      exact (ok.backup backup next).1.leastConnIn found

theorem UpstreamOk.callStep {up after : Upstream n m} (ok : UpstreamOk up) (call : Call n m)
    (taken : callStep up call = some after) : UpstreamOk after := by
  cases call with
  | get now rrp pc =>
      have same := Option.some.inj taken
      subst same
      exact (ok.getLeastConnPeer now rrp pc).upstream
  | free now rrp pc state =>
      obtain ⟨result, freed, same⟩ := Option.map_eq_some_iff.mp taken
      subst same
      unfold freeRoundRobinPeer at freed
      cases current : rrp.current with
      | none =>
          rw [current] at freed
          cases freed
      | some slot =>
          rw [current] at freed
          cases slot with
          | inl i =>
              have resultEq := Option.some.inj freed
              subst resultEq
              exact ⟨ok.primary.releaseAt i _ now state, ok.backup, ok.alone⟩
          | inr i =>
              obtain ⟨backup, next, resultEq⟩ := Option.map_eq_some_iff.mp freed
              subst resultEq
              refine ⟨ok.primary, ?_, ?_⟩
              · intro other same
                have otherEq := Option.some.inj same
                subst otherEq
                exact ⟨(ok.backup backup next).1.releaseAt i _ now state,
                  (ok.backup backup next).2⟩
              · intro single
                rw [ok.alone single] at next
                cases next

/-! ### The state the configuration builds -/

private theorem mem_peersOf {backup : Bool} {servers : List Server} {one : RrPeer}
    (member : one ∈ peersOf backup servers) : ∃ server name, one = Server.peer server name := by
  obtain ⟨server, _chosen, listed⟩ := List.mem_flatMap.mp member
  obtain ⟨name, _listed, same⟩ := List.mem_map.mp listed
  exact ⟨server, name, same.symm⟩

private theorem peersOf_weight_sum (chosen : List Server) :
    ((chosen.flatMap (fun server => server.addrs.map server.peer)).map RrPeer.weight).sum =
      ((chosen.map (fun server => server.addrs.length * server.weight)).sum : Nat) := by
  induction chosen with
  | nil => rfl
  | cons server rest ih =>
      have each : (server.addrs.map server.peer).map RrPeer.weight =
          List.replicate server.addrs.length (server.weight : Int) := by
        rw [List.map_map, List.eq_replicate_iff]
        refine ⟨by rw [List.length_map], ?_⟩
        intro weight listed
        obtain ⟨name, _listed, same⟩ := List.mem_map.mp listed
        exact same.symm
      simp only [List.flatMap_cons, List.map_append, List.sum_append, List.map_cons,
        List.sum_cons, ih, each, List.sum_replicate, nsmul_eq_mul, Nat.cast_add, Nat.cast_mul]

private theorem initGroup_ok (backup single : Bool) (host : String) (servers : List Server) :
    GroupOk (initGroup backup single host servers)
      (initGroup backup single host servers).peer := by
  have built : ∀ i, ∃ server name,
      (initGroup backup single host servers).peer i = Server.peer server name :=
    fun i => mem_peersOf (List.get_mem _ i)
  refine ⟨?_, ?_, ?_⟩
  · exact (Fin.sum_univ_fun_getElem (peersOf backup servers) RrPeer.weight).trans
      (peersOf_weight_sum (serversOf backup servers))
  · intro i
    obtain ⟨server, name, same⟩ := built i
    rw [same]
    exact ⟨Int.natCast_nonneg _, le_rfl⟩
  · have idle : (fun i => ((initGroup backup single host servers).peer i).currentWeight) =
        fun _ => 0 := by
      funext i
      obtain ⟨server, name, same⟩ := built i
      rw [same]
      rfl
    rw [idle]
    exact Balanced.zero (Int.natCast_nonneg _)

theorem Built.ok {up : Upstream n m} (built : Built up) : UpstreamOk up := by
  cases built with
  | servers host servers up positive built =>
      unfold initRoundRobin at built
      split at built
      · cases built
      · split at built
        · have upEq := Option.some.inj built
          subst upEq
          refine ⟨initGroup_ok _ _ _ _, ?_, fun _ => rfl⟩
          intro backup impossible
          cases impossible
        · have upEq := Option.some.inj built
          subst upEq
          refine ⟨initGroup_ok _ _ _ _, ?_, ?_⟩
          · intro backup same
            have backupEq := Option.some.inj same
            subst backupEq
            exact ⟨initGroup_ok _ _ _ _, rfl⟩
          · intro impossible
            cases impossible
  | implicit host addrs =>
      refine ⟨⟨?_, ?_, Balanced.zero (Int.natCast_nonneg _)⟩, ?_, fun _ => rfl⟩
      · simp [initImplicit]
      · intro i
        exact ⟨Int.one_nonneg, le_rfl⟩
      · intro backup impossible
        cases impossible

/-! ### Every run of calls -/

/-- What holds of a group in every state: effective weights in range, current
weights that sum to zero and are bounded by the group's size and weight. -/
structure GroupBounds (peers : RrPeers n) : Prop where
  effective : ∀ i, 0 ≤ (peers.peer i).effectiveWeight ∧
    (peers.peer i).effectiveWeight ≤ (peers.peer i).weight
  totalWeight : ∑ i, (peers.peer i).weight = peers.totalWeight
  zeroSum : ∑ i, (peers.peer i).currentWeight = 0
  bounded : ∀ i, |(peers.peer i).currentWeight| ≤ ((n : Int) - 1) * peers.totalWeight

theorem GroupOk.bounds {peers : RrPeers n} (ok : GroupOk peers peers.peer) :
    GroupBounds peers :=
  ⟨ok.effective, ok.total, ok.balanced.zeroSum, ok.current_abs_le⟩

/-- In every state reached by any sequence of calls both groups keep their
bounds, and in groups light enough for `ngx_int_t` no further call overflows. -/
theorem tieWeights_bounded {start up : Upstream n m} (built : Built start)
    (reach : Reach callStep (fun _ _ => True) start up) :
    GroupBounds up.primary ∧ (∀ backup, up.next = some backup → GroupBounds backup) ∧
      (Light up → ∀ now rrp pc, (getLeastConnPeer now up rrp pc).overflow = false) := by
  have ok : UpstreamOk up := reach.invariant UpstreamOk built.ok
    (fun _before call _after taken _ held => held.callStep call taken)
  refine ⟨ok.primary.bounds, fun backup next => (ok.backup backup next).1.bounds, ?_⟩
  intro light now rrp pc
  exact (ok.getLeastConnPeer now rrp pc).noOverflow light

def sampleServers : List Server :=
  [{ addrs := ["10.0.0.1:5000"], weight := 10, maxConns := 0, maxFails := 1,
     failTimeout := 10, down := false, backup := false },
   { addrs := ["10.0.0.2:5000"], weight := 1, maxConns := 0, maxFails := 1,
     failTimeout := 10, down := false, backup := false },
   { addrs := ["10.0.0.3:5000"], weight := 2, maxConns := 4, maxFails := 1,
     failTimeout := 10, down := false, backup := true }]

def sampleUpstream : Upstream 2 1 :=
  (initRoundRobin "wiki-app" sampleServers).get rfl

theorem sampleUpstream_built : Built sampleUpstream :=
  Built.servers "wiki-app" sampleServers sampleUpstream (by decide) rfl

/-- Requests come one after the other, so that both peers are idle and tie each
time; the second request fails, and the last one comes after the timeout. -/
def tiedCalls : List (Call 2 1) :=
  let fresh := (initRoundRobinPeer sampleUpstream).1
  let pc := (initRoundRobinPeer sampleUpstream).2
  let held := { fresh with current := some (.inl ⟨0, Nat.zero_lt_two⟩) }
  [.get 5 fresh pc, .free 6 held pc 0, .get 7 fresh pc, .free 8 held pc peerFailed,
    .get 20 fresh pc]

/-- The failure has cost the first peer its effective weight of 10, of which it
has one back. -/
theorem tieWeights_bounded_sample :
    ∃ up, run (guarded callStep (fun _ _ => True)) sampleUpstream tiedCalls = some up ∧
      (up.primary.peer 0).currentWeight = -2 ∧ (up.primary.peer 1).currentWeight = 2 ∧
      (up.primary.peer 0).effectiveWeight = 1 ∧
      GroupBounds up.primary ∧ (∀ backup, up.next = some backup → GroupBounds backup) ∧
      ∀ now rrp pc, (getLeastConnPeer now up rrp pc).overflow = false := by
  have facts : (run (guarded callStep (fun _ _ => True)) sampleUpstream tiedCalls).map
      (fun up => ((up.primary.peer 0).currentWeight, (up.primary.peer 1).currentWeight,
        (up.primary.peer 0).effectiveWeight, up.primary.totalWeight,
        up.next.map RrPeers.totalWeight)) = some (-2, 2, 1, 11, some 2) := by decide +kernel
  obtain ⟨up, ran, values⟩ := Option.map_eq_some_iff.mp facts
  obtain ⟨first, rest⟩ := Prod.mk.inj values
  obtain ⟨second, others⟩ := Prod.mk.inj rest
  obtain ⟨reduced, totals⟩ := Prod.mk.inj others
  obtain ⟨primary, next⟩ := Prod.mk.inj totals
  obtain ⟨bounds, backupBounds, light⟩ :=
    tieWeights_bounded sampleUpstream_built (reach_of_guarded_run ran)
  refine ⟨up, ran, first, second, reduced, bounds, backupBounds, light ⟨?_, ?_⟩⟩
  · rw [primary]
    decide
  · intro backup there
    rw [there] at next
    rw [Option.some.inj next]
    decide

end AutoBurst.Nginx
