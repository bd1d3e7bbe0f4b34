/-
Requests that share one upstream: nginx/src/http/ngx_http_upstream.c around
`ngx_http_upstream_next` and `ngx_http_upstream_finalize_request`.

A request is set up, gets and frees peers, and goes away, interleaved with all
others. Its peer is freed when `u->peer.sockaddr` is set, and that is cleared
right after, so a connection counter is the number of requests that hold the
peer.
-/

import AutoBurst.Lib.Custody
import AutoBurst.Nginx.Eligibility
import AutoBurst.Nginx.TieBalance

namespace AutoBurst.Nginx

open Custody Runs

/-! ### The system -/

/-- `sockaddr` says whether `u->peer.sockaddr` is set: the last successful get
has not been freed. `returned` is a ghost, the peers the request's calls
returned, in order. -/
structure Request (n m : Nat) where
  rrp : RrPeerData n m
  pc : PeerConnection
  sockaddr : Bool
  returned : List (Fin n ⊕ Fin m)

structure Balancer (ι : Type) (n m : Nat) where
  up : Upstream n m
  request : ι → Option (Request n m)

inductive Event (ι : Type)
  | arrive (who : ι)
  | get (who : ι) (now : Int)
  | free (who : ι) (now : Int) (state : Nat)
  | leave (who : ι)

section System

variable {ι : Type} [DecidableEq ι] {n m : Nat}

def Balancer.launch (up : Upstream n m) : Balancer ι n m :=
  { up := up, request := fun _ => none }

def Upstream.arrival (up : Upstream n m) : Request n m :=
  { rrp := (initRoundRobinPeer up).1
    pc := (initRoundRobinPeer up).2
    sockaddr := false
    returned := [] }

def Outcome.returned (out : Outcome n m) : Option (Fin n ⊕ Fin m) :=
  match out.rc with
  | .ok => out.rrp.current
  | .busy => none

/-- `pc->sockaddr` is written by a successful call only. -/
def Request.got (request : Request n m) (out : Outcome n m) : Request n m :=
  { rrp := out.rrp
    pc := out.pc
    sockaddr := request.sockaddr || out.rc == .ok
    returned := request.returned ++ out.returned.toList }

def Balancer.step (state : Balancer ι n m) : Event ι → Option (Balancer ι n m)
  | .arrive who =>
      match state.request who with
      | some _ => none
      | none => some { state with
          request := Function.update state.request who (some state.up.arrival) }
  | .get who now =>
      (state.request who).map fun request =>
        let out := getLeastConnPeer now state.up request.rrp request.pc
        { up := out.up
          request := Function.update state.request who (some (request.got out)) }
  | .free who now freeState =>
      (state.request who).bind fun request =>
        (freeRoundRobinPeer now state.up request.rrp request.pc freeState).map fun freed =>
          { up := freed.1
            request := Function.update state.request who
              (some { request with pc := freed.2, sockaddr := false }) }
  | .leave who =>
      (state.request who).map fun _ =>
        { state with request := Function.update state.request who none }

def Request.held (request : Request n m) : Option (Fin n ⊕ Fin m) :=
  if request.sockaddr then request.rrp.current else none

def Balancer.held (state : Balancer ι n m) (who : ι) : Option (Fin n ⊕ Fin m) :=
  (state.request who).bind Request.held

def Balancer.sockaddr (state : Balancer ι n m) (who : ι) : Bool :=
  (state.request who).elim false Request.sockaddr

/-- A peer is freed exactly once before the next get and before the request
goes away, and nothing is freed after NGX_BUSY. -/
def Disciplined (state : Balancer ι n m) : Event ι → Prop
  | .arrive _ => True
  | .get who _ => state.sockaddr who = false
  | .free who _ _ => state.sockaddr who = true
  | .leave who => state.sockaddr who = false

instance (state : Balancer ι n m) (event : Event ι) : Decidable (Disciplined state event) :=
  match event with
  | .arrive _ => inferInstanceAs (Decidable True)
  | .get _ _ => inferInstanceAs (Decidable (_ = _))
  | .free _ _ _ => inferInstanceAs (Decidable (_ = _))
  | .leave _ => inferInstanceAs (Decidable (_ = _))

end System

/-! ### What a call does to the upstream -/

section Calls

variable {n m : Nat} {up : Upstream n m}

/-- Every get is one of the two skeletons, over picks that move one counter. -/
theorem getLeastConnPeer_ends (now : Int) (up : Upstream n m) (rrp : RrPeerData n m)
    (pc : PeerConnection) :
    ∃ inPrimary inBackup,
      (∀ tried peers pick, inPrimary tried peers = some pick → Picked peers.peer pick) ∧
      (∀ tried peers pick, inBackup tried peers = some pick → Picked peers.peer pick) ∧
      Ends inPrimary inBackup up rrp pc (getLeastConnPeer now up rrp pc) := by
  unfold getLeastConnPeer
  split
  · exact ⟨roundRobinIn now, roundRobinIn now, fun _ _ _ => roundRobinIn_some,
      fun _ _ _ => roundRobinIn_some, getFrom_ends _ _ up rrp pc⟩
  · exact ⟨leastConnIn now, leastConnOrSingle now,
      fun _ _ _ found => (leastConnIn_some found).toPicked,
      fun _ _ _ => leastConnOrSingle_some, getFrom_ends _ _ up rrp pc⟩

/-- A call gets one connection at the peer it returns, or does nothing. -/
theorem getLeastConnPeer_effect (now : Int) (up : Upstream n m) (rrp : RrPeerData n m)
    (pc : PeerConnection) :
    ((getLeastConnPeer now up rrp pc).rc = .busy ∧
        (getLeastConnPeer now up rrp pc).up = up) ∨
      ((getLeastConnPeer now up rrp pc).rc = .ok ∧
        ∃ slot, (getLeastConnPeer now up rrp pc).rrp.current = some slot ∧
          Connected up (getLeastConnPeer now up rrp pc).up slot) := by
  obtain ⟨inPrimary, inBackup, primaryPicks, backupPicks, ends⟩ :=
    getLeastConnPeer_ends now up rrp pc
  generalize getLeastConnPeer now up rrp pc = out at ends
  cases ends with
  | primary pick group found =>
      exact Or.inr ⟨rfl, _, rfl, (primaryPicks _ _ _ found).inPrimary rrp pc⟩
  | turned backup pick group nothing next found =>
      exact Or.inr ⟨rfl, _, rfl, (backupPicks _ _ _ found).inBackup next rrp.toBackup pc⟩
  | backup backup pick group next found =>
      exact Or.inr ⟨rfl, _, rfl, (backupPicks _ _ _ found).inBackup next rrp pc⟩
  | noBackup name group nothing next => exact Or.inl ⟨rfl, rfl⟩
  | neither name backup group nothing next nothingThere => exact Or.inl ⟨rfl, rfl⟩
  | exhausted name group nothing => exact Or.inl ⟨rfl, rfl⟩

private theorem release_conns (one : RrPeer) (single : Bool) (now : Int) (state : Nat) :
    (one.release single now state).conns = uintPred one.conns ∧
      (one.release single now state).maxConns = one.maxConns := by
  have noted : (one.noteState now state).conns = one.conns ∧
      (one.noteState now state).maxConns = one.maxConns := by
    unfold RrPeer.noteState
    split
    · exact ⟨rfl, rfl⟩
    · split <;> exact ⟨rfl, rfl⟩
  unfold RrPeer.release
  split
  · exact ⟨rfl, rfl⟩
  · exact ⟨congrArg uintPred noted.1, noted.2⟩

private theorem releaseAt_recounted (peers : RrPeers n) (i : Fin n) (single : Bool)
    (now : Int) (state : Nat) :
    RecountedIn uintPred peers.peer (peers.releaseAt i single now state).peer i :=
  recountedIn_update (fun j => Reweighed.refl (peers.peer j))
    (release_conns (peers.peer i) single now state).1
    (release_conns (peers.peer i) single now state).2

theorem freeRoundRobinPeer_recounted {now : Int} {rrp : RrPeerData n m} {pc : PeerConnection}
    {state : Nat} {freed : Upstream n m × PeerConnection} {slot : Fin n ⊕ Fin m}
    (current : rrp.current = some slot)
    (taken : freeRoundRobinPeer now up rrp pc state = some freed) :
    Recounted uintPred up freed.1 slot := by
  unfold freeRoundRobinPeer at taken
  rw [current] at taken
  cases slot with
  | inl i =>
      have freedEq := Option.some.inj taken
      subst freedEq
      exact (releaseAt_recounted up.primary i (rrp.single up) now state).inPrimary
  | inr i =>
      obtain ⟨backup, next, freedEq⟩ := Option.map_eq_some_iff.mp taken
      subst freedEq
      exact (releaseAt_recounted backup i (rrp.single up) now state).inBackup next

end Calls

/-! ### What a step does to the counters and the holders -/

section Steps

variable {ι : Type} [DecidableEq ι] {n m : Nat} {state after : Balancer ι n m}

inductive Moved (state after : Balancer ι n m) : Prop
  | rests (upstream : after.up = state.up) (holds : after.held = state.held)
  | takes (who : ι) (slot : Fin n ⊕ Fin m) (free : state.held who = none)
      (holds : after.held = Function.update state.held who (some slot))
      (counts : Connected state.up after.up slot)
  | drops (who : ι) (slot : Fin n ⊕ Fin m) (holding : state.held who = some slot)
      (holds : after.held = Function.update state.held who none)
      (counts : Recounted uintPred state.up after.up slot)

private theorem held_update (state : Balancer ι n m) (up : Upstream n m) (who : ι)
    (request : Option (Request n m)) :
    Balancer.held { up := up, request := Function.update state.request who request } =
      Function.update state.held who (request.bind Request.held) := by
  funext other
  unfold Balancer.held
  by_cases here : other = who
  · subst here
    dsimp only
    rw [Function.update_self, Function.update_self]
  · dsimp only
    rw [Function.update_of_ne here, Function.update_of_ne here]

omit [DecidableEq ι] in
private theorem held_of_unset {who : ι} (unset : state.sockaddr who = false) :
    state.held who = none := by
  unfold Balancer.sockaddr at unset
  unfold Balancer.held
  cases found : state.request who with
  | none => rfl
  | some request =>
      rw [found] at unset
      exact if_neg (Bool.eq_false_iff.mp unset)

/-- Replacing a request that holds nothing by one that holds nothing. -/
private theorem moved_of_idle {who : ι} {request : Option (Request n m)} {up : Upstream n m}
    (free : state.held who = none) (idle : request.bind Request.held = none)
    (same : up = state.up) :
    Moved state { up := up, request := Function.update state.request who request } := by
  refine .rests same ?_
  rw [held_update, idle, ← free, Function.update_eq_self]

private theorem moved_of_get {who : ι} {now : Int} (unset : state.sockaddr who = false)
    (taken : state.step (.get who now) = some after) : Moved state after := by
  obtain ⟨request, found, rfl⟩ := Option.map_eq_some_iff.mp taken
  have free := held_of_unset unset
  have noPeer : request.sockaddr = false := by
    unfold Balancer.sockaddr at unset
    rw [found] at unset
    exact unset
  rcases getLeastConnPeer_effect now state.up request.rrp request.pc with
    ⟨isBusy, same⟩ | ⟨isOk, slot, current, connected⟩
  · apply moved_of_idle free _ same
    change (if (request.sockaddr || _ == Rc.ok) = true then _ else none) = none
    rw [noPeer, isBusy]
    rfl
  · refine .takes who slot free ?_ connected
    rw [held_update]
    congr 1
    change (if (request.sockaddr || _ == Rc.ok) = true then _ else none) = some slot
    rw [isOk, beq_self_eq_true, Bool.or_true, if_pos rfl]
    exact current

private theorem moved_of_free {who : ι} {now : Int} {freeState : Nat}
    (isSet : state.sockaddr who = true)
    (taken : state.step (.free who now freeState) = some after) : Moved state after := by
  obtain ⟨request, found, rest⟩ := Option.bind_eq_some_iff.mp taken
  obtain ⟨freed, released, rfl⟩ := Option.map_eq_some_iff.mp rest
  have hasPeer : request.sockaddr = true := by
    unfold Balancer.sockaddr at isSet
    rw [found] at isSet
    exact isSet
  cases current : request.rrp.current with
  | none =>
      unfold freeRoundRobinPeer at released
      rw [current] at released
      cases released
  | some slot =>
      refine .drops who slot ?_ ?_ (freeRoundRobinPeer_recounted current released)
      · unfold Balancer.held
        rw [found]
        change (if request.sockaddr = true then _ else none) = _
        rw [hasPeer, if_pos rfl, current]
      · rw [held_update]
        rfl

theorem moved_of_step {event : Event ι} (disciplined : Disciplined state event)
    (taken : state.step event = some after) : Moved state after := by
  cases event with
  | arrive who =>
      cases found : state.request who with
      | some request =>
          simp only [Balancer.step, found] at taken
          cases taken
      | none =>
          simp only [Balancer.step, found] at taken
          have afterEq := Option.some.inj taken
          subst afterEq
          refine moved_of_idle ?_ rfl rfl
          unfold Balancer.held
          rw [found]
          rfl
  | get who now => exact moved_of_get disciplined taken
  | free who now freeState => exact moved_of_free disciplined taken
  | leave who =>
      obtain ⟨request, found, rfl⟩ := Option.map_eq_some_iff.mp taken
      exact moved_of_idle (held_of_unset disciplined) rfl rfl

end Steps

/-! ### Counters are exact -/

section Exactness

variable {ι : Type} [DecidableEq ι] [Fintype ι] {n m : Nat} {state after : Balancer ι n m}

def Balancer.holders (state : Balancer ι n m) (slot : Fin n ⊕ Fin m) : Finset ι :=
  Custody.holders state.held slot

/-- Every counter is the number of holders, within the limit if there is one,
and nobody holds a peer that is not there. -/
structure Exact (state : Balancer ι n m) : Prop where
  counted : ∀ slot peer, state.up.peerAt slot = some peer →
    peer.conns = (state.holders slot).card
  capped : ∀ slot peer, state.up.peerAt slot = some peer → peer.maxConns ≠ 0 →
    peer.conns ≤ peer.maxConns
  present : ∀ who slot, state.held who = some slot → ∃ peer, state.up.peerAt slot = some peer

/-- A peer after a step comes from one before it. -/
private theorem Recounted.before {change : Nat → Nat} {up after : Upstream n m}
    {slot other : Fin n ⊕ Fin m} {peer : RrPeer} (recounted : Recounted change up after slot)
    (found : after.peerAt other = some peer) :
    ∃ old, up.peerAt other = some old ∧ peer.maxConns = old.maxConns ∧
      peer.conns = if other = slot then change old.conns else old.conns := by
  have limit := recounted.limits other
  rw [found] at limit
  obtain ⟨old, foundOld, sameLimit⟩ := Option.map_eq_some_iff.mp limit.symm
  refine ⟨old, foundOld, sameLimit.symm, ?_⟩
  by_cases here : other = slot
  · subst here
    obtain ⟨oldToo, foundToo, moved⟩ := recounted.chosen
    rw [foundOld] at foundToo
    rw [found] at moved
    rw [if_pos rfl, Option.some.inj foundToo]
    exact Option.some.inj moved
  · have kept := recounted.others other here
    rw [found, foundOld] at kept
    rw [if_neg here]
    exact Option.some.inj kept

private theorem Recounted.still {change : Nat → Nat} {up after : Upstream n m}
    {slot other : Fin n ⊕ Fin m} {peer : RrPeer} (recounted : Recounted change up after slot)
    (found : up.peerAt other = some peer) : ∃ new, after.peerAt other = some new := by
  have limit := recounted.limits other
  rw [found] at limit
  obtain ⟨new, foundNew, _⟩ := Option.map_eq_some_iff.mp limit
  exact ⟨new, foundNew⟩

private theorem uintSucc_eq {value : Nat} (small : value + 1 < 2 ^ 64) :
    uintSucc value = value + 1 := by
  unfold uintSucc uintWrap
  omega

private theorem uintSucc_le (value : Nat) : uintSucc value ≤ value + 1 := by
  unfold uintSucc uintWrap
  omega

theorem Exact.takes (exactly : Exact state) (room : Fintype.card ι < 2 ^ 64) {who : ι}
    {slot : Fin n ⊕ Fin m} (free : state.held who = none)
    (holds : after.held = Function.update state.held who (some slot))
    (counts : Connected state.up after.up slot) : Exact after where
  counted := by
    intro other peer found
    obtain ⟨old, foundOld, _limit, conns⟩ := counts.toRecounted.before found
    have counted := exactly.counted other old foundOld
    have below := card_holders_lt free other
    unfold Balancer.holders at counted ⊢
    rw [conns, holds, card_holders_take free slot other]
    by_cases here : other = slot
    · rw [if_pos here, if_pos here, uintSucc_eq (by omega), counted]
    · rw [if_neg here, if_neg here, counted, Nat.add_zero]
  capped := by
    intro other peer found limited
    obtain ⟨old, foundOld, limit, conns⟩ := counts.toRecounted.before found
    rw [limit] at limited ⊢
    rw [conns]
    by_cases here : other = slot
    · subst here
      have fits := counts.fits old foundOld
      unfold RrPeer.full at fits
      rw [Bool.and_eq_false_iff, bne_eq_false_iff_eq, decide_eq_false_iff_not] at fits
      have below := fits.resolve_left limited
      rw [if_pos rfl]
      have wrapped := uintSucc_le old.conns
      omega
    · rw [if_neg here]
      exact exactly.capped other old foundOld limited
  present := by
    intro party other holding
    rw [holds] at holding
    by_cases here : party = who
    · subst here
      rw [Function.update_self] at holding
      obtain ⟨old, foundOld, _⟩ := counts.chosen
      rw [← Option.some.inj holding]
      exact counts.toRecounted.still foundOld
    · rw [Function.update_of_ne here] at holding
      obtain ⟨old, foundOld⟩ := exactly.present party other holding
      exact counts.toRecounted.still foundOld

theorem Exact.drops (exactly : Exact state) {who : ι} {slot : Fin n ⊕ Fin m}
    (holding : state.held who = some slot)
    (holds : after.held = Function.update state.held who none)
    (counts : Recounted uintPred state.up after.up slot) : Exact after := by
  have lowered : ∀ other old peer, state.up.peerAt other = some old →
      after.up.peerAt other = some peer →
      (peer.conns = if other = slot then uintPred old.conns else old.conns) →
      peer.conns = (after.holders other).card ∧ peer.conns ≤ old.conns := by
    intro other old peer foundOld found conns
    have counted := exactly.counted other old foundOld
    have dropped := card_holders_drop holding other
    unfold Balancer.holders at counted ⊢
    rw [holds]
    by_cases here : other = slot
    · rw [if_pos here] at conns dropped
      unfold uintPred at conns
      split at conns <;> omega
    · rw [if_neg here] at conns dropped
      omega
  refine ⟨?_, ?_, ?_⟩
  · intro other peer found
    obtain ⟨old, foundOld, _limit, conns⟩ := counts.before found
    exact (lowered other old peer foundOld found conns).1
  · intro other peer found limited
    obtain ⟨old, foundOld, limit, conns⟩ := counts.before found
    rw [limit] at limited ⊢
    exact (lowered other old peer foundOld found conns).2.trans
      (exactly.capped other old foundOld limited)
  · intro party other stillHolding
    rw [holds] at stillHolding
    by_cases here : party = who
    · subst here
      rw [Function.update_self] at stillHolding
      cases stillHolding
    · rw [Function.update_of_ne here] at stillHolding
      obtain ⟨old, foundOld⟩ := exactly.present party other stillHolding
      exact counts.still foundOld

theorem Exact.of_moved (exactly : Exact state) (room : Fintype.card ι < 2 ^ 64)
    (moved : Moved state after) : Exact after := by
  cases moved with
  | rests upstream holds =>
      refine ⟨?_, ?_, ?_⟩
      · unfold Balancer.holders
        rw [upstream, holds]
        exact exactly.counted
      · rw [upstream]
        exact exactly.capped
      · rw [upstream, holds]
        exact exactly.present
  | takes who slot free holds counts => exact exactly.takes room free holds counts
  | drops who slot holding holds counts => exact exactly.drops holding holds counts

end Exactness

/-! ### Every interleaving -/

private theorem serverPeers_idle (backup : Bool) (servers : List Server)
    (i : Fin (peersOf backup servers).length) : ((peersOf backup servers).get i).conns = 0 := by
  obtain ⟨server, _chosen, listed⟩ := List.mem_flatMap.mp
    (List.get_mem (peersOf backup servers) i)
  obtain ⟨name, _listed, same⟩ := List.mem_map.mp listed
  rw [← same]
  rfl

/-- No connection is counted before the first request. -/
theorem Built.idle {n m : Nat} {up : Upstream n m} (built : Built up)
    {slot : Fin n ⊕ Fin m} {peer : RrPeer} (found : up.peerAt slot = some peer) :
    peer.conns = 0 := by
  cases built with
  | servers host servers up positive built =>
      unfold initRoundRobin at built
      split at built
      · cases built
      split at built
      · have upEq := Option.some.inj built
        subst upEq
        cases slot with
        | inl i =>
            rw [← Option.some.inj found]
            exact serverPeers_idle false servers i
        | inr i => cases found
      · have upEq := Option.some.inj built
        subst upEq
        cases slot with
        | inl i =>
            rw [← Option.some.inj found]
            exact serverPeers_idle false servers i
        | inr i =>
            rw [← Option.some.inj found]
            exact serverPeers_idle true servers i
  | implicit host addrs =>
      cases slot with
      | inl i =>
          rw [← Option.some.inj found]
          rfl
      | inr i => cases found

private theorem get_configured (backup : Bool) (servers : List Server)
    (i : Fin (peersOf backup servers).length) :
    ∃ server name, (peersOf backup servers).get i = Server.peer server name := by
  obtain ⟨server, _chosen, listed⟩ := List.mem_flatMap.mp
    (List.get_mem (peersOf backup servers) i)
  obtain ⟨name, _listed, same⟩ := List.mem_map.mp listed
  exact ⟨server, name, same.symm⟩

/-- Every peer starts as one of a server; an implicit upstream is made of
servers with the default parameters. -/
theorem Built.configured {n m : Nat} {up : Upstream n m} (built : Built up)
    {slot : Fin n ⊕ Fin m} {peer : RrPeer} (found : up.peerAt slot = some peer) :
    ∃ server name, peer = Server.peer server name := by
  cases built with
  | servers host servers up positive built =>
      unfold initRoundRobin at built
      split at built
      · cases built
      split at built
      · cases built
        cases slot with
        | inl i =>
            rw [← Option.some.inj found]
            exact get_configured false servers i
        | inr i => cases found
      · cases built
        cases slot with
        | inl i =>
            rw [← Option.some.inj found]
            exact get_configured false servers i
        | inr i =>
            rw [← Option.some.inj found]
            exact get_configured true servers i
  | implicit host addrs =>
      cases slot with
      | inl i =>
          rw [← Option.some.inj found]
          exact ⟨{ addrs := addrs, weight := 1, maxConns := 0, maxFails := 1, failTimeout := 10,
                   down := false, backup := false }, addrs.get i, rfl⟩
      | inr i => cases found

theorem exact_launch {ι : Type} [DecidableEq ι] [Fintype ι] {n m : Nat} {up : Upstream n m}
    (built : Built up) : Exact (Balancer.launch up : Balancer ι n m) where
  counted := by
    intro slot peer found
    have nobody : (Balancer.launch up : Balancer ι n m).holders slot = ∅ := by
      rw [Finset.eq_empty_iff_forall_notMem]
      intro who member
      cases mem_holders.mp member
    rw [built.idle found, nobody, Finset.card_empty]
  capped := by
    intro slot peer found _limited
    rw [built.idle found]
    exact Nat.zero_le _
  present := by
    intro who slot holding
    cases holding

theorem exact_of_reach {ι : Type} [DecidableEq ι] [Fintype ι] (room : Fintype.card ι < 2 ^ 64)
    {n m : Nat} {up : Upstream n m} (built : Built up) {state : Balancer ι n m}
    (reach : Reach Balancer.step Disciplined (Balancer.launch up) state) : Exact state :=
  reach.invariant Exact (exact_launch built)
    (fun _before _event _after taken disciplined held =>
      held.of_moved room (moved_of_step disciplined taken))

/-- A request is named by the address of its structure, which is not null. An
address is used again by a later request. -/
abbrev Address := Fin (2 ^ 64 - 1)

/-- However gets and frees interleave, a peer's counter is the number of
requests that hold it and stays within its limit, and `conns--` finds it
positive. -/
theorem conns_exact {n m : Nat} {up : Upstream n m} (built : Built up)
    {state : Balancer Address n m}
    (reach : Reach Balancer.step Disciplined (Balancer.launch up) state) :
    (∀ slot peer, state.up.peerAt slot = some peer →
      peer.conns = (state.holders slot).card ∧
        (peer.maxConns ≠ 0 → peer.conns ≤ peer.maxConns)) ∧
      ∀ who slot, state.held who = some slot →
        ∃ peer, state.up.peerAt slot = some peer ∧ 0 < peer.conns := by
  have exactly : Exact state := exact_of_reach (by rw [Fintype.card_fin]; decide) built reach
  refine ⟨fun slot peer found =>
    ⟨exactly.counted slot peer found, exactly.capped slot peer found⟩, ?_⟩
  intro who slot holding
  obtain ⟨peer, found⟩ := exactly.present who slot holding
  refine ⟨peer, found, ?_⟩
  rw [exactly.counted slot peer found]
  exact Finset.card_pos.mpr ⟨who, mem_holders.mpr holding⟩

def sampleEvents : List (Event Address) :=
  let first : Address := ⟨0, by decide⟩
  let second : Address := ⟨1, by decide⟩
  [.arrive first, .get first 5, .arrive second, .get second 5, .free first 6 4, .get first 6]

theorem conns_exact_sample :
    ∃ state, run (guarded Balancer.step Disciplined) (Balancer.launch sampleUpstream)
        sampleEvents = some state ∧
      (state.holders (.inl 0)).card = 1 ∧ (state.holders (.inl 1)).card = 1 := by
  have counts : (run (guarded Balancer.step Disciplined) (Balancer.launch sampleUpstream)
      sampleEvents).map
      (fun state => ((state.up.primary.peer 0).conns, (state.up.primary.peer 1).conns)) =
        some (1, 1) := by decide +kernel
  obtain ⟨state, ran, conns⟩ := Option.map_eq_some_iff.mp counts
  obtain ⟨first, second⟩ := Prod.mk.inj conns
  have exactly := (conns_exact sampleUpstream_built (reach_of_guarded_run ran)).1
  refine ⟨state, ran, ?_, ?_⟩
  · rw [← (exactly (.inl 0) _ rfl).1]
    exact first
  · rw [← (exactly (.inl 1) _ rfl).1]
    exact second

end AutoBurst.Nginx
