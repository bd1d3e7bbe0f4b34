/-
Peers that failed are left alone: `max_fails` and `fail_timeout` of
ngx_http_upstream_get_least_conn_peer, ngx_http_upstream_get_peer and
ngx_http_upstream_free_round_robin_peer.

A failure sets `accessed` and `checked` to the same time, so that a response to
an older request does not clear `fails`; a choice after the timeout moves
`checked` past `accessed`, so that the next response does.
-/

import AutoBurst.Lib.Reach
import AutoBurst.Nginx.Proportion
import AutoBurst.Nginx.Retries

namespace AutoBurst.Nginx

open Runs

variable {n m : Nat} {now : Int}

/-! ### What a call does to the failures of a peer -/

def SameTrouble (before after : RrPeer) : Prop :=
  ∃ current effective conns, after =
    { before with currentWeight := current, effectiveWeight := effective, conns := conns }

theorem SameTrouble.refl (peer : RrPeer) : SameTrouble peer peer :=
  ⟨peer.currentWeight, peer.effectiveWeight, peer.conns, rfl⟩

def RrPeer.check (peer : RrPeer) (now : Int) : RrPeer :=
  { peer with checked := if now - peer.checked > peer.failTimeout then now else peer.checked }

section Group

variable {tried : List Nat} {peers : RrPeers n} {pick : Pick n}

private theorem leastConnIn_trouble (found : leastConnIn now tried peers = some pick) :
    (peers.peer pick.best).failedOut now = false ∧
      ∀ i, SameTrouble
        (if i = pick.best then (peers.peer i).check now else peers.peer i) (pick.peer i) := by
  have isEligible := (leastConnIn_some found).isEligible
  have scanned : FoundAt now tried peers.peer n (scanPeers now tried peers.peer) :=
    scanPeers_foundAt
  constructor
  · unfold eligible at isEligible
    simp only [Bool.and_eq_true, Bool.not_eq_true'] at isEligible
    exact isEligible.1.2
  · unfold leastConnIn at found
    rcases scan : scanPeers now tried peers.peer with ⟨best, many⟩
    rw [scan] at found scanned
    cases best with
    | none => cases found
    | some first =>
        have pickEq := Option.some.inj found
        subst pickEq
        intro i
        obtain ⟨before, known, same⟩ := choose_peer many scanned i
        have unmoved : SameTrouble (peers.peer i) before := by
          rcases known with untouched | gained
          · rw [untouched]
            exact .refl _
          · rw [gained]
            exact ⟨_, _, _, rfl⟩
        obtain ⟨current, effective, conns, rfl⟩ := unmoved
        change SameTrouble
          (if i = (breakTies now tried peers.peer first many).best then _ else _)
          (((breakTies now tried peers.peer first many).choose now tried).peer i)
        rw [same]
        split
        · exact ⟨_, _, _, rfl⟩
        · exact ⟨_, _, _, rfl⟩

private theorem releaseAt_trouble (peers : RrPeers n) (now : Int) (freeState : Nat) (i j : Fin n) :
    SameTrouble (if j = i then (peers.peer j).noteState now freeState else peers.peer j)
      ((peers.releaseAt i false now freeState).peer j) := by
  change SameTrouble _ (Function.update peers.peer i _ j)
  by_cases same : j = i
  · rw [same, Function.update_self, if_pos rfl]
    exact ⟨_, _, _, rfl⟩
  · rw [Function.update_of_ne same, if_neg same]
    exact .refl _

end Group

/-- Positions of one group as slots of the upstream. -/
private theorem ite_slot {k : Nat} {inGroup : Fin k → Fin n ⊕ Fin m}
    (injective : Function.Injective inGroup) (i j : Fin k) (here away : RrPeer) :
    (if some (inGroup i) = some (inGroup j) then here else away) =
      if j = i then here else away := by
  by_cases same : j = i
  · rw [if_pos same, if_pos (by rw [same])]
  · rw [if_neg same, if_neg (fun equal => same (injective (Option.some.inj equal)).symm)]

section Calls

variable {up : Upstream n m} {rrp : RrPeerData n m} {pc : PeerConnection}

structure Chosen (now : Int) (up : Upstream n m) (out : Outcome n m) : Prop where
  live : ∀ slot, out.returned = some slot →
    ∃ peer, up.peerAt slot = some peer ∧ peer.failedOut now = false
  peers : ∀ slot peer, up.peerAt slot = some peer → ∃ after, out.up.peerAt slot = some after ∧
    SameTrouble (if out.returned = some slot then peer.check now else peer) after

private theorem chosen_busy {out : Outcome n m} (isBusy : out.rc = .busy) (same : out.up = up) :
    Chosen now up out := by
  have nothing : out.returned = none := by
    unfold Outcome.returned
    rw [isBusy]
  constructor
  · intro slot returned
    rw [nothing] at returned
    cases returned
  · intro slot peer there
    rw [same, nothing]
    exact ⟨peer, there, .refl peer⟩

private theorem chosen_primary {pick : Pick n}
    (found : leastConnIn now rrp.tried up.primary = some pick) :
    Chosen now up (pick.inPrimary up rrp pc) := by
  obtain ⟨live, peers⟩ := leastConnIn_trouble found
  have returned : (pick.inPrimary up rrp pc).returned = some (.inl pick.best) := rfl
  constructor
  · intro slot isSlot
    rw [← Option.some.inj (returned.symm.trans isSlot)]
    exact ⟨_, rfl, live⟩
  · intro slot peer there
    rw [returned]
    cases slot with
    | inr i => exact ⟨peer, there, .refl peer⟩
    | inl i =>
        rw [← Option.some.inj there]
        refine ⟨pick.peer i, rfl, ?_⟩
        rw [ite_slot Sum.inl_injective]
        exact peers i

private theorem chosen_backup {backup : RrPeers m} {pick : Pick m} (next : up.next = some backup)
    (found : leastConnIn now rrp.tried backup = some pick) :
    Chosen now up (pick.inBackup up backup rrp pc) := by
  obtain ⟨live, peers⟩ := leastConnIn_trouble found
  have returned : (pick.inBackup up backup rrp pc).returned = some (.inr pick.best) := rfl
  constructor
  · intro slot isSlot
    rw [← Option.some.inj (returned.symm.trans isSlot), peerAt_backup next]
    exact ⟨_, rfl, live⟩
  · intro slot peer there
    rw [returned]
    cases slot with
    | inl i => exact ⟨peer, there, .refl peer⟩
    | inr i =>
        rw [peerAt_backup next] at there
        rw [← Option.some.inj there]
        refine ⟨pick.peer i, rfl, ?_⟩
        rw [ite_slot Sum.inr_injective]
        exact peers i

theorem getLeastConnPeer_chosen (several : Several up) (now : Int) (rrp : RrPeerData n m)
    (pc : PeerConnection) : Chosen now up (getLeastConnPeer now up rrp pc) := by
  have ends := several.ends now rrp pc
  generalize getLeastConnPeer now up rrp pc = out at ends
  cases ends with
  | primary pick group found => exact chosen_primary found
  | turned backup pick group nothing next found =>
      rw [several.leastConnOrSingle_eq next] at found
      exact chosen_backup next found
  | backup backup pick group next found =>
      rw [several.leastConnOrSingle_eq next] at found
      exact chosen_backup next found
  | noBackup name group nothing next => exact chosen_busy rfl rfl
  | neither name backup group nothing next nothingThere => exact chosen_busy rfl rfl
  | exhausted name group nothing => exact chosen_busy rfl rfl

/-- The peer that is freed takes note of how it went. -/
theorem freeRoundRobinPeer_noted (several : Several up) {freeState : Nat}
    {freed : Upstream n m × PeerConnection}
    (taken : freeRoundRobinPeer now up rrp pc freeState = some freed) {slot : Fin n ⊕ Fin m}
    {peer : RrPeer} (there : up.peerAt slot = some peer) :
    ∃ after, freed.1.peerAt slot = some after ∧
      SameTrouble (if rrp.current = some slot then peer.noteState now freeState else peer)
        after := by
  unfold freeRoundRobinPeer at taken
  rw [several.not_single rrp] at taken
  cases current : rrp.current with
  | none =>
      rw [current] at taken
      cases taken
  | some released =>
      rw [current] at taken
      cases released with
      | inl i =>
          cases taken
          cases slot with
          | inr j => exact ⟨peer, there, .refl peer⟩
          | inl j =>
              rw [← Option.some.inj there]
              refine ⟨_, rfl, ?_⟩
              rw [ite_slot Sum.inl_injective]
              exact releaseAt_trouble up.primary now freeState i j
      | inr i =>
          obtain ⟨backup, next, rfl⟩ := Option.map_eq_some_iff.mp taken
          cases slot with
          | inl j => exact ⟨peer, there, .refl peer⟩
          | inr j =>
              rw [peerAt_backup next] at there
              rw [← Option.some.inj there]
              refine ⟨_, rfl, ?_⟩
              rw [ite_slot Sum.inr_injective]
              exact releaseAt_trouble backup now freeState i j

end Calls

/-! ### Watching the failures -/

def RrPeer.tripped (peer : RrPeer) : Bool :=
  peer.maxFails != 0 && decide (peer.maxFails ≤ peer.fails)

/-- The time of the last call and the number of calls; for each peer, when a
failure last brought it to `max_fails` or beyond, and when it was last chosen
there. -/
structure Watch (n m : Nat) where
  clock : Int
  calls : Nat
  trippedAt : Fin n ⊕ Fin m → Option Int
  probedAt : Fin n ⊕ Fin m → Option Int

def Watch.start (clock : Int) : Watch n m :=
  { clock := clock, calls := 0, trippedAt := fun _ => none, probedAt := fun _ => none }

def Call.time : Call n m → Int
  | .get now _ _ => now
  | .free now _ _ _ => now

def Call.trips (after : Upstream n m) (slot : Fin n ⊕ Fin m) : Call n m → Bool
  | .get _ _ _ => false
  | .free _ rrp _ state =>
      decide (rrp.current = some slot) && state &&& peerFailed != 0 &&
        (after.peerAt slot).any RrPeer.tripped

def Call.probes (before : Upstream n m) (slot : Fin n ⊕ Fin m) : Call n m → Bool
  | .get now rrp pc =>
      decide ((getLeastConnPeer now before rrp pc).returned = some slot) &&
        (before.peerAt slot).any RrPeer.tripped
  | .free _ _ _ _ => false

def watch (before : Upstream n m) (call : Call n m) (after : Upstream n m) (seen : Watch n m) :
    Watch n m :=
  { clock := call.time
    calls := seen.calls + 1
    trippedAt := fun slot => if call.trips after slot then some call.time else seen.trippedAt slot
    probedAt := fun slot => if call.probes before slot then some call.time else seen.probedAt slot }

def Timely (state : Upstream n m × Watch n m) (call : Call n m) : Prop :=
  state.2.clock ≤ call.time ∧ state.2.calls + 1 < 2 ^ 64

instance (state : Upstream n m × Watch n m) (call : Call n m) : Decidable (Timely state call) :=
  inferInstanceAs (Decidable (_ ∧ _))

/-- What is known of a peer. Within the timeout its failures are not forgotten. -/
structure Watched (seen : Watch n m) (slot : Fin n ⊕ Fin m) (peer : RrPeer) : Prop where
  fails : peer.fails ≤ seen.calls
  trippedAt : ∀ since, seen.trippedAt slot = some since → since ≤ seen.clock ∧
    (since + peer.failTimeout < seen.clock ∨
      peer.tripped = true ∧ since ≤ peer.checked ∧ peer.checked ≤ peer.accessed)
  probedAt : ∀ since, seen.probedAt slot = some since →
    since ≤ seen.clock ∧ since ≤ peer.checked

section Watching

variable {up after : Upstream n m} {seen : Watch n m} {slot : Fin n ⊕ Fin m} {peer : RrPeer}

theorem Watched.of_sameTrouble {other : RrPeer} (watched : Watched seen slot peer)
    (same : SameTrouble peer other) : Watched seen slot other := by
  obtain ⟨current, effective, conns, rfl⟩ := same
  exact ⟨watched.fails, watched.trippedAt, watched.probedAt⟩

/-- Time passes without a change. -/
private theorem Watched.pass (watched : Watched seen slot peer) {later : Watch n m}
    (clock : seen.clock ≤ later.clock) (calls : seen.calls ≤ later.calls)
    (tripped : later.trippedAt slot = seen.trippedAt slot)
    (probed : later.probedAt slot = seen.probedAt slot) : Watched later slot peer := by
  refine ⟨watched.fails.trans calls, ?_, ?_⟩
  · intro since noted
    rw [tripped] at noted
    obtain ⟨past, still⟩ := watched.trippedAt since noted
    refine ⟨past.trans clock, ?_⟩
    rcases still with rested | resting
    · exact .inl (rested.trans_le clock)
    · exact .inr resting
  · intro since noted
    rw [probed] at noted
    obtain ⟨past, checked⟩ := watched.probedAt since noted
    exact ⟨past.trans clock, checked⟩

theorem rested_of_tripped (live : peer.failedOut now = false) (tripped : peer.tripped = true) :
    peer.checked + peer.failTimeout < now := by
  unfold RrPeer.tripped at tripped
  unfold RrPeer.failedOut at live
  rw [tripped, Bool.true_and, decide_eq_false_iff_not] at live
  omega

/-- A peer that is chosen has rested since it was tripped, and since it was
chosen last in that state. -/
theorem Watched.rested (watched : Watched seen slot peer) (later : seen.clock ≤ now)
    (live : peer.failedOut now = false) (since : Int) :
    (seen.trippedAt slot = some since → since + peer.failTimeout < now) ∧
      (seen.probedAt slot = some since → peer.tripped = true →
        since + peer.failTimeout < now) := by
  constructor
  · intro noted
    rcases (watched.trippedAt since noted).2 with rested | ⟨tripped, before, _checked⟩
    · exact rested.trans_le later
    · have gone := rested_of_tripped live tripped
      omega
  · intro noted tripped
    have gone := rested_of_tripped live tripped
    have before := (watched.probedAt since noted).2
    omega

/-- A choice ends every rest, or starts a new one. -/
private theorem Watched.chosen (watched : Watched seen slot peer) {later : Watch n m}
    (clock : seen.clock ≤ later.clock) (calls : seen.calls ≤ later.calls)
    (live : peer.failedOut later.clock = false)
    (tripped : later.trippedAt slot = seen.trippedAt slot)
    (probed : later.probedAt slot = if peer.tripped then some later.clock else seen.probedAt slot) :
    Watched later slot (peer.check later.clock) := by
  refine ⟨watched.fails.trans calls, ?_, ?_⟩
  · intro since noted
    rw [tripped] at noted
    exact ⟨(watched.trippedAt since noted).1.trans clock,
      .inl ((watched.rested clock live since).1 noted)⟩
  · intro since noted
    change since ≤ later.clock ∧ since ≤
      if later.clock - peer.checked > peer.failTimeout then later.clock else peer.checked
    rw [probed] at noted
    split at noted
    · rename_i isTripped
      have gone := rested_of_tripped live isTripped
      rw [if_pos (by omega), ← Option.some.inj noted]
      exact ⟨le_rfl, le_rfl⟩
    · obtain ⟨past, checked⟩ := watched.probedAt since noted
      refine ⟨past.trans clock, ?_⟩
      split
      · exact past.trans clock
      · exact checked

private theorem Watched.failed (watched : Watched seen slot peer) {later : Watch n m}
    (clock : seen.clock ≤ later.clock) (room : seen.calls + 1 < 2 ^ 64)
    (calls : later.calls = seen.calls + 1) {freeState : Nat}
    (isFailure : (freeState &&& peerFailed != 0) = true)
    (tripped : later.trippedAt slot =
      if (peer.noteState later.clock freeState).tripped then some later.clock
      else seen.trippedAt slot)
    (probed : later.probedAt slot = seen.probedAt slot) :
    Watched later slot (peer.noteState later.clock freeState) := by
  have counted : uintWrap (peer.fails + 1) = peer.fails + 1 := by
    have bounded := watched.fails
    exact Nat.mod_eq_of_lt (by omega)
  have fails : (peer.noteState later.clock freeState).fails = peer.fails + 1 := by
    unfold RrPeer.noteState
    rw [if_pos isFailure]
    exact counted
  have times : (peer.noteState later.clock freeState).accessed = later.clock ∧
      (peer.noteState later.clock freeState).checked = later.clock ∧
      (peer.noteState later.clock freeState).failTimeout = peer.failTimeout ∧
      (peer.noteState later.clock freeState).maxFails = peer.maxFails := by
    unfold RrPeer.noteState
    rw [if_pos isFailure]
    exact ⟨rfl, rfl, rfl, rfl⟩
  have stays : peer.tripped = true →
      (peer.noteState later.clock freeState).tripped = true := by
    unfold RrPeer.tripped
    rw [fails, times.2.2.2, Bool.and_eq_true, Bool.and_eq_true, decide_eq_true_eq,
      decide_eq_true_eq]
    intro before
    exact ⟨before.1, Nat.le_succ_of_le before.2⟩
  refine ⟨?_, ?_, ?_⟩
  · rw [fails, calls]
    exact Nat.succ_le_succ watched.fails
  · intro since noted
    rw [times.1, times.2.1, times.2.2.1]
    rw [tripped] at noted
    split at noted
    · rename_i isTripped
      rw [← Option.some.inj noted]
      exact ⟨le_rfl, .inr ⟨isTripped, le_rfl, le_rfl⟩⟩
    · obtain ⟨past, still⟩ := watched.trippedAt since noted
      refine ⟨past.trans clock, ?_⟩
      rcases still with rested | ⟨isTripped, _before, _checked⟩
      · exact .inl (rested.trans_le clock)
      · exact .inr ⟨stays isTripped, past.trans clock, le_rfl⟩
  · intro since noted
    rw [probed] at noted
    rw [times.2.1]
    exact ⟨(watched.probedAt since noted).1.trans clock,
      (watched.probedAt since noted).1.trans clock⟩

/-- A response clears the failures only of a peer that was chosen after it had
rested. -/
private theorem Watched.answered (watched : Watched seen slot peer) {freeState : Nat}
    (isFailure : ¬(freeState &&& peerFailed != 0) = true) (now : Int) :
    Watched seen slot (peer.noteState now freeState) := by
  unfold RrPeer.noteState
  rw [if_neg isFailure]
  split
  · rename_i probed
    refine ⟨Nat.zero_le _, ?_, watched.probedAt⟩
    intro since noted
    obtain ⟨past, still⟩ := watched.trippedAt since noted
    refine ⟨past, ?_⟩
    rcases still with rested | ⟨_tripped, _before, unprobed⟩
    · exact .inl rested
    · exact absurd probed (not_lt.mpr unprobed)
  · exact watched

/-- Every call keeps what is known of every peer. -/
theorem Watched.of_step (several : Several up) (watched : Watched seen slot peer)
    (there : up.peerAt slot = some peer) {call : Call n m} (timely : Timely (up, seen) call)
    (taken : callStep up call = some after) :
    ∃ next, after.peerAt slot = some next ∧ Watched (watch up call after seen) slot next := by
  obtain ⟨clock, room⟩ := timely
  have calls : seen.calls ≤ (watch up call after seen).calls := Nat.le_succ _
  cases call with
  | get now rrp pc =>
      obtain ⟨live, peers⟩ := getLeastConnPeer_chosen several now rrp pc
      cases taken
      obtain ⟨next, isNext, same⟩ := peers slot peer there
      refine ⟨next, isNext, ?_⟩
      by_cases returned : (getLeastConnPeer now up rrp pc).returned = some slot
      · rw [if_pos returned] at same
        refine Watched.of_sameTrouble (Watched.chosen watched clock calls ?_ rfl ?_) same
        · obtain ⟨chosen, isChosen, isLive⟩ := live slot returned
          rw [there] at isChosen
          rw [Option.some.inj isChosen]
          exact isLive
        · change (if (decide _ && (up.peerAt slot).any RrPeer.tripped) = true then _ else _) = _
          rw [decide_eq_true returned, there]
          rfl
      · rw [if_neg returned] at same
        refine (watched.pass clock calls rfl ?_).of_sameTrouble same
        change (if (decide _ && _) = true then _ else _) = _
        rw [decide_eq_false returned]
        rfl
  | free now rrp pc freeState =>
      obtain ⟨freed, released, rfl⟩ := Option.map_eq_some_iff.mp taken
      obtain ⟨next, isNext, same⟩ := freeRoundRobinPeer_noted several released there
      refine ⟨next, isNext, ?_⟩
      by_cases current : rrp.current = some slot
      · rw [if_pos current] at same
        by_cases isFailure : (freeState &&& peerFailed != 0) = true
        · refine Watched.of_sameTrouble (Watched.failed watched clock room rfl isFailure ?_ rfl)
            same
          change (if (decide _ && _ && (freed.1.peerAt slot).any RrPeer.tripped) = true then _
            else _) = _
          rw [decide_eq_true current, isFailure, isNext]
          obtain ⟨_, _, _, rfl⟩ := same
          rfl
        · refine Watched.of_sameTrouble
            ((watched.pass clock calls ?_ rfl).answered isFailure now) same
          change (if (decide _ && (freeState &&& peerFailed != 0) && _) = true then _ else _) = _
          rw [Bool.eq_false_iff.mpr isFailure, Bool.and_false]
          rfl
      · rw [if_neg current] at same
        refine (watched.pass clock calls ?_ rfl).of_sameTrouble same
        change (if (decide _ && _ && _) = true then _ else _) = _
        rw [decide_eq_false current]
        rfl

theorem callStep_sameShape {call : Call n m} (taken : callStep up call = some after) :
    SameShape up after := by
  cases call with
  | get now rrp pc =>
      cases taken
      exact getLeastConnPeer_sameShape now up rrp pc
  | free now rrp pc freeState =>
      obtain ⟨freed, released, rfl⟩ := Option.map_eq_some_iff.mp taken
      exact freeRoundRobinPeer_sameShape released

theorem SameShape.peerAt (same : SameShape up after) {next : RrPeer}
    (there : after.peerAt slot = some next) : ∃ peer, up.peerAt slot = some peer := by
  cases slot with
  | inl i => exact ⟨_, rfl⟩
  | inr i =>
      obtain ⟨backup, isNext, _peer⟩ := Option.map_eq_some_iff.mp there
      have flags := same.next
      rw [isNext] at flags
      obtain ⟨old, isOld, _single⟩ := Option.map_eq_some_iff.mp flags.symm
      exact ⟨old.peer i, peerAt_backup isOld i⟩

end Watching

structure AllWatched (state : Upstream n m × Watch n m) : Prop where
  several : Several state.1
  peers : ∀ slot peer, state.1.peerAt slot = some peer → Watched state.2 slot peer

theorem allWatched_start {up : Upstream n m} (built : Built up)
    (several : up.primary.single = false) (clock : Int) :
    AllWatched (up, Watch.start clock) := by
  refine ⟨built.several several, ?_⟩
  intro slot peer there
  obtain ⟨server, name, rfl⟩ := built.configured there
  refine ⟨Nat.zero_le _, ?_, ?_⟩
  · intro since noted
    cases noted
  · intro since noted
    cases noted

theorem AllWatched.of_step {state after : Upstream n m × Watch n m} (all : AllWatched state)
    {call : Call n m} (timely : Timely state call)
    (taken : monitored callStep watch state call = some after) : AllWatched after := by
  obtain ⟨stepped, seen⟩ := monitored_eq_some.mp taken
  have shape := callStep_sameShape stepped
  refine ⟨shape.several all.several, ?_⟩
  intro slot peer there
  obtain ⟨before, isBefore⟩ := shape.peerAt there
  obtain ⟨next, isNext, watched⟩ :=
    (all.peers slot before isBefore).of_step all.several isBefore timely stepped
  rw [there] at isNext
  rw [seen, Option.some.inj isNext]
  exact watched

/-- In every run in which the clock does not go back: a peer that a failure
brought to `max_fails` is returned again only after `fail_timeout`, whatever
responses come in between; and while its failures stand, two choices of it are
further apart than that. -/
theorem failed_peers_rest {up : Upstream n m} (built : Built up)
    (several : up.primary.single = false) (clock : Int)
    {current : Upstream n m} {seen : Watch n m}
    (reach : Reach (monitored callStep watch) Timely (up, Watch.start clock) (current, seen))
    {now : Int} (later : seen.clock ≤ now) (rrp : RrPeerData n m) (pc : PeerConnection)
    {slot : Fin n ⊕ Fin m}
    (returned : (getLeastConnPeer now current rrp pc).returned = some slot) :
    ∃ peer, current.peerAt slot = some peer ∧ ∀ since,
      (seen.trippedAt slot = some since → since + peer.failTimeout < now) ∧
        (seen.probedAt slot = some since → peer.tripped = true →
          since + peer.failTimeout < now) := by
  have all : AllWatched (current, seen) := reach.invariant AllWatched
    (allWatched_start built several clock)
    (fun _before _call _after taken timely held => held.of_step timely taken)
  obtain ⟨peer, there, live⟩ :=
    (getLeastConnPeer_chosen all.several now rrp pc).live slot returned
  exact ⟨peer, there, (all.peers slot peer there).rested later live⟩

def sampleCalls : List (Call 2 1) :=
  let fresh := (initRoundRobinPeer sampleUpstream).1
  let pc := (initRoundRobinPeer sampleUpstream).2
  [.get 5 fresh pc, .free 6 { fresh with current := some (.inl 0) } pc peerFailed,
    .get 7 fresh pc]

/-- At 20 the first peer is returned again. -/
theorem failed_peers_rest_sample :
    ∃ current seen peer, run (guarded (monitored callStep watch) Timely)
        (sampleUpstream, Watch.start 0) sampleCalls = some (current, seen) ∧
      current.peerAt (.inl 0) = some peer ∧ 6 + peer.failTimeout < 20 := by
  have facts : (run (guarded (monitored callStep watch) Timely)
      (sampleUpstream, Watch.start 0) sampleCalls).map
      (fun state => ((getLeastConnPeer 20 state.1 (initRoundRobinPeer sampleUpstream).1
        (initRoundRobinPeer sampleUpstream).2).returned, state.2.clock,
        state.2.trippedAt (.inl 0))) = some (some (.inl 0), 7, some 6) := by decide +kernel
  obtain ⟨⟨current, seen⟩, ran, values⟩ := Option.map_eq_some_iff.mp facts
  obtain ⟨returned, rest⟩ := Prod.mk.inj values
  obtain ⟨clock, trippedAt⟩ := Prod.mk.inj rest
  have later : seen.clock ≤ 20 := by
    rw [show seen.clock = 7 from clock]
    decide
  obtain ⟨peer, there, rests⟩ := failed_peers_rest sampleUpstream_built rfl 0
    (reach_of_guarded_run ran) later _ _ returned
  exact ⟨current, seen, peer, ran, there, (rests 6).1 trippedAt⟩

end AutoBurst.Nginx
