/-
When a call of the least_conn balancer succeeds, and what it leaves behind.

Both walks filter by the same eligibility, so a call succeeds exactly when the
request's group, or after it the untried backup group, has an eligible peer. A
successful call moves one connection counter. A failed one touches no peer.
-/

import AutoBurst.Nginx.LeastConnWalks

namespace AutoBurst.Nginx

open CountedLoop

variable {n m : Nat} {now : Int} {tried : List Nat}

/-! ### One pick in a group -/

structure RecountedIn (change : Nat → Nat) (peer after : Fin n → RrPeer) (i : Fin n) :
    Prop where
  chosen : (after i).conns = change (peer i).conns
  others : ∀ j, j ≠ i → (after j).conns = (peer j).conns
  limits : ∀ j, (after j).maxConns = (peer j).maxConns

/-- `conns++` -/
def uintSucc (value : Nat) : Nat := uintWrap (value + 1)

structure Picked (peer : Fin n → RrPeer) (pick : Pick n) : Prop
    extends RecountedIn uintSucc peer pick.peer pick.best where
  fits : (peer pick.best).full = false

def Reweighed (before after : RrPeer) : Prop :=
  ∃ current effective, after =
    { before with currentWeight := current, effectiveWeight := effective }

theorem Reweighed.refl (peer : RrPeer) : Reweighed peer peer :=
  ⟨peer.currentWeight, peer.effectiveWeight, rfl⟩

theorem Reweighed.gain {before after : RrPeer} (same : Reweighed before after) :
    Reweighed before after.gain := by
  obtain ⟨current, effective, rfl⟩ := same
  exact ⟨_, _, rfl⟩

section Pass

variable {peer : Fin n → RrPeer}

/-- One peer is replaced after a pass over all of them. -/
theorem recountedIn_update {change : Nat → Nat} {walked : Fin n → RrPeer} {i : Fin n}
    {changed : RrPeer} (same : ∀ j, Reweighed (peer j) (walked j))
    (conns : changed.conns = change (walked i).conns)
    (limit : changed.maxConns = (walked i).maxConns) :
    RecountedIn change peer (Function.update walked i changed) i where
  chosen := by
    obtain ⟨current, effective, walkedEq⟩ := same i
    rw [Function.update_self, conns, walkedEq]
  others := by
    intro j other
    obtain ⟨current, effective, walkedEq⟩ := same j
    rw [Function.update_of_ne other, walkedEq]
  limits := by
    intro j
    obtain ⟨current, effective, walkedEq⟩ := same j
    by_cases chosen : j = i
    · subst chosen
      rw [Function.update_self, limit, walkedEq]
    · rw [Function.update_of_ne chosen, walkedEq]

theorem eligible_not_full {i : Fin n} (isEligible : eligible now tried peer i = true) :
    (peer i).full = false := by
  unfold eligible at isEligible
  rw [Bool.and_eq_true, Bool.not_eq_true'] at isEligible
  exact isEligible.2

theorem eligible_not_tried {i : Fin n} (isEligible : eligible now tried peer i = true) :
    triedBit tried i = false := by
  unfold eligible at isEligible
  rw [Bool.and_assoc, Bool.and_assoc, Bool.and_eq_true, Bool.not_eq_true'] at isEligible
  exact isEligible.1

end Pass

/-! ### The three ways to pick -/

section Ways

variable {peers : RrPeers n} {pick : Pick n}

theorem TieAt.best_eligible {peer : Fin n → RrPeer} {first : Fin n} {pass : TiePass n}
    {stop : Nat} (firstEligible : eligible now tried peer first = true)
    (walked : TieAt now tried peer first stop pass) :
    eligible now tried peer pass.best = true := by
  rcases walked.chosen with member | ⟨_, same⟩
  · exact (walked.within pass.best member).2.2
  · rw [same]
    exact firstEligible

private theorem TieAt.reweighed {peer : Fin n → RrPeer} {first : Fin n} {pass : TiePass n}
    {stop : Nat} (walked : TieAt now tried peer first stop pass) (i : Fin n) :
    Reweighed (peer i) (pass.tally.peer i) := by
  rw [walked.peers i]
  split
  · exact (Reweighed.refl (peer i)).gain
  · exact Reweighed.refl (peer i)

private theorem breakTies_spec {peer : Fin n → RrPeer} {first : Fin n}
    (firstEligible : eligible now tried peer first = true) (many : Bool) :
    eligible now tried peer (breakTies now tried peer first many).best = true ∧
      ∀ i, Reweighed (peer i) ((breakTies now tried peer first many).tally.peer i) := by
  unfold breakTies
  split
  · have walked := tiePass_tieAt firstEligible
    exact ⟨walked.best_eligible firstEligible, walked.reweighed⟩
  · exact ⟨firstEligible, fun i => Reweighed.refl (peer i)⟩

structure LeastPicked (now : Int) (tried : List Nat) (peer : Fin n → RrPeer)
    (pick : Pick n) : Prop extends Picked peer pick where
  isEligible : eligible now tried peer pick.best = true
  marked : pick.tried = markTried tried pick.best

theorem leastConnIn_some (found : leastConnIn now tried peers = some pick) :
    LeastPicked now tried peers.peer pick := by
  have scanned : FoundAt now tried peers.peer n (scanPeers now tried peers.peer) :=
    scanPeers_foundAt
  unfold leastConnIn at found
  rcases scan : scanPeers now tried peers.peer with ⟨best, many⟩
  rw [scan] at found scanned
  cases best with
  | none => cases found
  | some first =>
      have pickEq := Option.some.inj found
      subst pickEq
      obtain ⟨bestEligible, same⟩ := breakTies_spec scanned many
      exact
        { toRecountedIn := recountedIn_update same rfl rfl
          fits := eligible_not_full bestEligible
          isEligible := bestEligible
          marked := rfl }

theorem leastConnIn_none_iff :
    leastConnIn now tried peers = none ↔
      ∀ i, eligible now tried peers.peer i = false := by
  have scanned : FoundAt now tried peers.peer n (scanPeers now tried peers.peer) :=
    scanPeers_foundAt
  unfold leastConnIn
  rcases scan : scanPeers now tried peers.peer with ⟨best, many⟩
  rw [scan] at scanned
  cases best with
  | none => exact iff_of_true rfl (fun i => scanned i i.isLt)
  | some first =>
      refine iff_of_false nofun (fun nothing => ?_)
      have isEligible : eligible now tried peers.peer first = true := scanned
      rw [nothing first] at isEligible
      cases isEligible

private structure RrAt (now : Int) (tried : List Nat) (peer : Fin n → RrPeer)
    (pass : RrPass n) : Prop where
  same : ∀ i, Reweighed (peer i) (pass.tally.peer i)
  fits : ∀ best, pass.best = some best → (peer best).full = false

private theorem rrStep_rrAt {peer : Fin n → RrPeer} (i : Fin n) (pass : RrPass n)
    (reached : RrAt now tried peer pass) : RrAt now tried peer (rrStep now tried pass i) := by
  unfold rrStep
  split
  · exact reached
  split
  · exact reached
  split
  · exact reached
  split
  · exact reached
  rename_i notFull
  have fitsHere : (peer i).full = false := by
    obtain ⟨current, effective, walkedEq⟩ := reached.same i
    rw [walkedEq] at notFull
    exact Bool.eq_false_iff.mpr notFull
  have taken : ∀ j, Reweighed (peer j) ((pass.tally.take i).peer j) := by
    intro j
    change Reweighed (peer j) (Function.update pass.tally.peer i (pass.tally.peer i).gain j)
    by_cases here : j = i
    · subst here
      rw [Function.update_self]
      exact (reached.same j).gain
    · rw [Function.update_of_ne here]
      exact reached.same j
  have fitsNew : ∀ best, some i = some best → (peer best).full = false := by
    intro best isBest
    rw [← Option.some.inj isBest]
    exact fitsHere
  cases held : pass.best with
  | none => exact ⟨taken, fitsNew⟩
  | some best =>
      dsimp only
      split
      · exact ⟨taken, fitsNew⟩
      · exact ⟨taken, fun other isBest => reached.fits other (held.trans isBest)⟩

theorem getPeer_some {peer : Fin n → RrPeer} (found : getPeer now tried peer = some pick) :
    Picked peer pick := by
  have walked : RrAt now tried peer
      (loopFrom (rrStep now tried) 0 { tally := .start peer, best := none }) :=
    loopFrom_invariant (rrStep now tried) (fun _ => RrAt now tried peer)
      (fun i pass => rrStep_rrAt i pass) _ (Nat.zero_le n)
      ⟨fun i => Reweighed.refl (peer i), nofun⟩
  obtain ⟨best, held, rfl⟩ := Option.map_eq_some_iff.mp found
  exact ⟨recountedIn_update walked.same rfl rfl, walked.fits best held⟩

theorem getSingle_some {peer : Fin n → RrPeer} (found : getSingle tried peer = some pick) :
    Picked peer pick := by
  unfold getSingle at found
  split at found
  · rename_i nonempty
    dsimp only at found
    split at found
    · cases found
    · split at found
      · cases found
      · rename_i notFull
        have pickEq := Option.some.inj found
        subst pickEq
        exact ⟨recountedIn_update (fun i => Reweighed.refl (peer i)) rfl rfl,
          Bool.eq_false_iff.mpr notFull⟩
  · cases found

theorem roundRobinIn_some (found : roundRobinIn now tried peers = some pick) :
    Picked peers.peer pick := by
  unfold roundRobinIn at found
  split at found
  · exact getSingle_some found
  · exact getPeer_some found

theorem leastConnOrSingle_some (found : leastConnOrSingle now tried peers = some pick) :
    Picked peers.peer pick := by
  unfold leastConnOrSingle at found
  split at found
  · exact roundRobinIn_some found
  · exact (leastConnIn_some found).toPicked

end Ways

/-! ### The outcome of a call -/

section Outcomes

inductive Ends (inPrimary : List Nat → RrPeers n → Option (Pick n))
    (inBackup : List Nat → RrPeers m → Option (Pick m)) (up : Upstream n m)
    (rrp : RrPeerData n m) (pc : PeerConnection) : Outcome n m → Prop
  | primary (pick : Pick n) (group : rrp.peers = .primary)
      (found : inPrimary rrp.tried up.primary = some pick) :
      Ends inPrimary inBackup up rrp pc (pick.inPrimary up rrp pc)
  | turned (backup : RrPeers m) (pick : Pick m) (group : rrp.peers = .primary)
      (nothing : inPrimary rrp.tried up.primary = none) (next : up.next = some backup)
      (found : inBackup rrp.toBackup.tried backup = some pick) :
      Ends inPrimary inBackup up rrp pc (pick.inBackup up backup rrp.toBackup pc)
  | backup (backup : RrPeers m) (pick : Pick m) (group : rrp.peers = .backup)
      (next : up.next = some backup) (found : inBackup rrp.tried backup = some pick) :
      Ends inPrimary inBackup up rrp pc (pick.inBackup up backup rrp pc)
  | noBackup (name : String) (group : rrp.peers = .primary)
      (nothing : inPrimary rrp.tried up.primary = none) (next : up.next = none) :
      Ends inPrimary inBackup up rrp pc (busy up rrp pc name)
  | neither (name : String) (backup : RrPeers m) (group : rrp.peers = .primary)
      (nothing : inPrimary rrp.tried up.primary = none) (next : up.next = some backup)
      (nothingThere : inBackup rrp.toBackup.tried backup = none) :
      Ends inPrimary inBackup up rrp pc (busy up rrp.toBackup pc name)
  | exhausted (name : String) (group : rrp.peers = .backup)
      (nothing : ∀ backup, up.next = some backup → inBackup rrp.tried backup = none) :
      Ends inPrimary inBackup up rrp pc (busy up rrp pc name)

theorem getFrom_ends (inPrimary : List Nat → RrPeers n → Option (Pick n))
    (inBackup : List Nat → RrPeers m → Option (Pick m)) (up : Upstream n m)
    (rrp : RrPeerData n m) (pc : PeerConnection) :
    Ends inPrimary inBackup up rrp pc (getFrom inPrimary inBackup up rrp pc) := by
  unfold getFrom
  cases group : rrp.peers with
  | primary =>
      dsimp only
      cases found : inPrimary rrp.tried up.primary with
      | some pick => exact .primary pick group found
      | none =>
          dsimp only
          cases next : up.next with
          | none => exact .noBackup _ group found next
          | some backup =>
              dsimp only
              cases foundThere : inBackup rrp.toBackup.tried backup with
              | some pick => exact .turned backup pick group found next foundThere
              | none => exact .neither _ backup group found next foundThere
  | backup =>
      dsimp only
      cases next : up.next with
      | none =>
          refine .exhausted _ group ?_
          intro backup impossible
          rw [next] at impossible
          cases impossible
      | some backup =>
          dsimp only
          cases found : inBackup rrp.tried backup with
          | some pick => exact .backup backup pick group next found
          | none =>
              refine .exhausted _ group ?_
              intro other same
              rw [next] at same
              rw [← Option.some.inj same]
              exact found

/-- Every upstream with several peers in each of its groups. A backup group is
never configured as single, whatever its size. -/
structure Several (up : Upstream n m) : Prop where
  primary : up.primary.single = false
  backup : ∀ backup, up.next = some backup → backup.single = false

theorem Several.not_single {up : Upstream n m} (several : Several up) (rrp : RrPeerData n m) :
    rrp.single up = false := by
  unfold RrPeerData.single
  cases rrp.peers with
  | primary => exact several.primary
  | backup =>
      cases next : up.next with
      | none => rfl
      | some backup => exact several.backup backup next

theorem Several.ends {up : Upstream n m} (several : Several up) (now : Int)
    (rrp : RrPeerData n m) (pc : PeerConnection) :
    Ends (leastConnIn now) (leastConnOrSingle now) up rrp pc
      (getLeastConnPeer now up rrp pc) := by
  unfold getLeastConnPeer
  rw [if_neg (Bool.eq_false_iff.mp (several.not_single rrp))]
  exact getFrom_ends _ _ up rrp pc

theorem Several.leastConnOrSingle_eq {up : Upstream n m} (several : Several up)
    {backup : RrPeers m} (next : up.next = some backup) (now : Int) (tried : List Nat) :
    leastConnOrSingle now tried backup = leastConnIn now tried backup := by
  unfold leastConnOrSingle
  rw [if_neg (Bool.eq_false_iff.mp (several.backup backup next))]

end Outcomes

/-! ### Peers across the groups -/

section Slots

variable {up : Upstream n m}

def groupOf : Fin n ⊕ Fin m → Group
  | .inl _ => .primary
  | .inr _ => .backup

def Upstream.peerAt (up : Upstream n m) : Fin n ⊕ Fin m → Option RrPeer
  | .inl i => some (up.primary.peer i)
  | .inr i => up.next.map (fun backup => backup.peer i)

def Upstream.eligibleAt (now : Int) (tried : List Nat) (up : Upstream n m) :
    Fin n ⊕ Fin m → Bool
  | .inl i => eligible now tried up.primary.peer i
  | .inr i => up.next.elim false (fun backup => eligible now tried backup.peer i)

theorem eligibleAt_backup {backup : RrPeers m} (next : up.next = some backup) (i : Fin m) :
    up.eligibleAt now tried (.inr i) = eligible now tried backup.peer i := by
  unfold Upstream.eligibleAt
  rw [next]
  rfl

def Available (now : Int) (tried : List Nat) (up : Upstream n m) (group : Group) : Prop :=
  ∃ slot : Fin n ⊕ Fin m, groupOf slot = group ∧ up.eligibleAt now tried slot = true

theorem available_primary_iff :
    Available now tried up .primary ↔ ¬leastConnIn now tried up.primary = none := by
  rw [leastConnIn_none_iff]
  constructor
  · rintro ⟨slot, group, isEligible⟩ nothing
    cases slot with
    | inl i => exact Bool.noConfusion ((nothing i).symm.trans isEligible)
    | inr i => cases group
  · intro notAll
    by_contra nowhere
    apply notAll
    intro i
    exact Bool.eq_false_iff.mpr (fun isEligible => nowhere ⟨.inl i, rfl, isEligible⟩)

theorem available_backup_iff {backup : RrPeers m} (next : up.next = some backup) :
    Available now tried up .backup ↔ ¬leastConnIn now tried backup = none := by
  rw [leastConnIn_none_iff]
  constructor
  · rintro ⟨slot, group, isEligible⟩ nothing
    cases slot with
    | inl i => cases group
    | inr i =>
        rw [eligibleAt_backup next, nothing i] at isEligible
        cases isEligible
  · intro notAll
    by_contra nowhere
    apply notAll
    intro i
    refine Bool.eq_false_iff.mpr (fun isEligible => nowhere ⟨.inr i, rfl, ?_⟩)
    rw [eligibleAt_backup next]
    exact isEligible

theorem not_available_backup (next : up.next = none) : ¬Available now tried up .backup := by
  rintro ⟨slot, group, isEligible⟩
  cases slot with
  | inl i => cases group
  | inr i =>
      unfold Upstream.eligibleAt at isEligible
      rw [next] at isEligible
      cases isEligible

structure Recounted (change : Nat → Nat) (up after : Upstream n m) (slot : Fin n ⊕ Fin m) :
    Prop where
  chosen : ∃ peer, up.peerAt slot = some peer ∧
    (after.peerAt slot).map RrPeer.conns = some (change peer.conns)
  others : ∀ other, other ≠ slot →
    (after.peerAt other).map RrPeer.conns = (up.peerAt other).map RrPeer.conns
  limits : ∀ other,
    (after.peerAt other).map RrPeer.maxConns = (up.peerAt other).map RrPeer.maxConns

structure Connected (up after : Upstream n m) (slot : Fin n ⊕ Fin m) : Prop
    extends Recounted uintSucc up after slot where
  fits : ∀ peer, up.peerAt slot = some peer → peer.full = false

theorem RecountedIn.inPrimary {change : Nat → Nat} {after : Fin n → RrPeer} {i : Fin n}
    (recounted : RecountedIn change up.primary.peer after i) :
    Recounted change up { up with primary := { up.primary with peer := after } }
      (.inl i) where
  chosen := ⟨up.primary.peer i, rfl, congrArg some recounted.chosen⟩
  others := by
    intro other apart
    cases other with
    | inl j => exact congrArg some (recounted.others j (fun same => apart (congrArg _ same)))
    | inr j => rfl
  limits := by
    intro other
    cases other with
    | inl j => exact congrArg some (recounted.limits j)
    | inr j => rfl

theorem peerAt_backup {backup : RrPeers m} (next : up.next = some backup) (i : Fin m) :
    up.peerAt (.inr i) = some (backup.peer i) := by
  unfold Upstream.peerAt
  rw [next]
  rfl

theorem RecountedIn.inBackup {change : Nat → Nat} {backup : RrPeers m}
    {after : Fin m → RrPeer} {i : Fin m} (recounted : RecountedIn change backup.peer after i)
    (next : up.next = some backup) :
    Recounted change up { up with next := some { backup with peer := after } } (.inr i) where
  chosen := ⟨backup.peer i, peerAt_backup next i, congrArg some recounted.chosen⟩
  others := by
    intro other apart
    cases other with
    | inl j => rfl
    | inr j =>
        rw [peerAt_backup next]
        exact congrArg some (recounted.others j (fun same => apart (congrArg _ same)))
  limits := by
    intro other
    cases other with
    | inl j => rfl
    | inr j =>
        rw [peerAt_backup next]
        exact congrArg some (recounted.limits j)

theorem Picked.inPrimary {pick : Pick n} (picked : Picked up.primary.peer pick)
    (rrp : RrPeerData n m) (pc : PeerConnection) :
    Connected up (pick.inPrimary up rrp pc).up (.inl pick.best) where
  toRecounted := picked.toRecountedIn.inPrimary
  fits := by
    intro peer same
    rw [← Option.some.inj same]
    exact picked.fits

theorem Picked.inBackup {backup : RrPeers m} {pick : Pick m}
    (picked : Picked backup.peer pick) (next : up.next = some backup)
    (rrp : RrPeerData n m) (pc : PeerConnection) :
    Connected up (pick.inBackup up backup rrp pc).up (.inr pick.best) where
  toRecounted := picked.toRecountedIn.inBackup next
  fits := by
    intro peer same
    rw [peerAt_backup next] at same
    rw [← Option.some.inj same]
    exact picked.fits

end Slots

/-! ### The bitmap of a group that starts afresh -/

theorem getD_clearTried (tried : List Nat) (number word : Nat) :
    (clearTried tried number).getD word 0 =
      if word < triedWords number then 0 else tried.getD word 0 := by
  unfold clearTried
  rw [List.getD_eq_getElem?_getD, List.getElem?_mapIdx, List.getD_eq_getElem?_getD]
  cases tried[word]? with
  | none => split <;> rfl
  | some bits => rfl

theorem triedBit_clearTried {number i : Nat} (tried : List Nat) (within : i < number) :
    triedBit (clearTried tried number) i = false := by
  have inside : i / 64 < triedWords number := by
    unfold triedWords
    omega
  unfold triedBit
  rw [getD_clearTried, if_pos inside, Nat.zero_and]
  rfl

/-- A cleared bitmap is the empty one, as far as the group is concerned. -/
theorem eligible_cleared (tried : List Nat) (peer : Fin m → RrPeer) (i : Fin m) :
    eligible now (clearTried tried m) peer i = eligible now [] peer i := by
  have empty : triedBit [] i = false := by
    unfold triedBit
    rw [List.getD_nil, Nat.zero_and]
    rfl
  unfold eligible
  rw [triedBit_clearTried tried i.isLt, empty]

/-! ### The answer of a call -/

/-- What the caller learns from a call: whether a peer was available, that the
peer it got was, and that a call without one changed nothing. The request's
own bitmap counts in its group, an empty one in the group it turns to. -/
structure Answer (now : Int) (up : Upstream n m) (rrp : RrPeerData n m)
    (out : Outcome n m) : Prop where
  ok_iff : out.rc = .ok ↔ Available now rrp.tried up rrp.peers ∨
    (rrp.peers = .primary ∧ Available now [] up .backup)
  chosen : out.rc = .ok → ∃ slot, out.rrp.current = some slot ∧
    up.eligibleAt now (if groupOf slot = rrp.peers then rrp.tried else []) slot = true ∧
    (Available now rrp.tried up rrp.peers → groupOf slot = rrp.peers) ∧
    Connected up out.up slot
  unchanged : out.rc = .busy → out.up = up

section Answers

variable {up : Upstream n m} {rrp : RrPeerData n m} {pc : PeerConnection}

private theorem Answer.ofPick {out : Outcome n m} (slot : Fin n ⊕ Fin m) (isOk : out.rc = .ok)
    (current : out.rrp.current = some slot)
    (isEligible : up.eligibleAt now
      (if groupOf slot = rrp.peers then rrp.tried else []) slot = true)
    (placed : groupOf slot = rrp.peers ∨ (rrp.peers = .primary ∧ groupOf slot = .backup ∧
      ¬Available now rrp.tried up rrp.peers))
    (connected : Connected up out.up slot) : Answer now up rrp out where
  ok_iff := by
    refine iff_of_true isOk ?_
    rcases placed with here | ⟨primary, there, nothing⟩
    · rw [if_pos here] at isEligible
      exact Or.inl ⟨slot, here, isEligible⟩
    · rw [primary, there, if_neg nofun] at isEligible
      exact Or.inr ⟨primary, slot, there, isEligible⟩
  chosen := by
    intro _isOk
    refine ⟨slot, current, isEligible, ?_, connected⟩
    intro available
    rcases placed with here | ⟨_, _, nothing⟩
    · exact here
    · exact absurd available nothing
  unchanged := by
    intro isBusy
    rw [isOk] at isBusy
    cases isBusy

private theorem Answer.ofBusy {after : RrPeerData n m} {name : String}
    (nothing : ¬Available now rrp.tried up rrp.peers)
    (nothingThere : rrp.peers = .primary → ¬Available now [] up .backup) :
    Answer now up rrp (busy up after pc name) where
  ok_iff := by
    refine iff_of_false nofun ?_
    rintro (here | ⟨primary, there⟩)
    · exact nothing here
    · exact nothingThere primary there
  chosen := nofun
  unchanged := fun _ => rfl

theorem Several.answer (several : Several up) {out : Outcome n m}
    (ends : Ends (leastConnIn now) (leastConnOrSingle now) up rrp pc out) :
    Answer now up rrp out := by
  cases ends with
  | primary pick group found =>
      have picked := leastConnIn_some found
      have here : groupOf (.inl pick.best : Fin n ⊕ Fin m) = rrp.peers := group.symm
      apply Answer.ofPick (.inl pick.best) rfl rfl _ (Or.inl here)
        (picked.toPicked.inPrimary rrp pc)
      rw [if_pos here]
      exact picked.isEligible
  | turned backup pick group nothing next found =>
      rw [several.leastConnOrSingle_eq next] at found
      have picked := leastConnIn_some found
      have nowhere : ¬Available now rrp.tried up rrp.peers := by
        rw [group, available_primary_iff]
        exact not_not_intro nothing
      apply Answer.ofPick (.inr pick.best) rfl rfl _ (Or.inr ⟨group, rfl, nowhere⟩)
        (picked.toPicked.inBackup next rrp.toBackup pc)
      rw [group, if_neg nofun, eligibleAt_backup next, ← eligible_cleared rrp.tried]
      exact picked.isEligible
  | backup backup pick group next found =>
      rw [several.leastConnOrSingle_eq next] at found
      have picked := leastConnIn_some found
      have here : groupOf (.inr pick.best : Fin n ⊕ Fin m) = rrp.peers := group.symm
      apply Answer.ofPick (.inr pick.best) rfl rfl _ (Or.inl here)
        (picked.toPicked.inBackup next rrp pc)
      rw [if_pos here, eligibleAt_backup next]
      exact picked.isEligible
  | noBackup name group nothing next =>
      refine Answer.ofBusy ?_ (fun _ => not_available_backup next)
      rw [group, available_primary_iff]
      exact not_not_intro nothing
  | neither name backup group nothing next nothingThere =>
      refine Answer.ofBusy ?_ (fun _ => ?_)
      · rw [group, available_primary_iff]
        exact not_not_intro nothing
      · rw [several.leastConnOrSingle_eq next, leastConnIn_none_iff] at nothingThere
        rw [available_backup_iff next, leastConnIn_none_iff]
        refine not_not_intro (fun i => ?_)
        rw [← eligible_cleared rrp.tried]
        exact nothingThere i
  | exhausted name group nothing =>
      refine Answer.ofBusy ?_ (fun primary => absurd (group.symm.trans primary) nofun)
      rw [group]
      cases next : up.next with
      | none => exact not_available_backup next
      | some backup =>
          have nothingHere := nothing backup next
          rw [several.leastConnOrSingle_eq next] at nothingHere
          rw [available_backup_iff next]
          exact not_not_intro nothingHere

end Answers

/-- NGX_OK exactly when something is eligible, and NGX_BUSY leaves both groups
as they were. -/
theorem getLeastConnPeer_answer (now : Int) (up : Upstream n m) (several : Several up)
    (rrp : RrPeerData n m) (pc : PeerConnection) :
    Answer now up rrp (getLeastConnPeer now up rrp pc) :=
  several.answer (several.ends now rrp pc)

def lastResort : Upstream 2 1 :=
  let server : Server :=
    { addrs := ["10.0.0.1:5000"], weight := 1, maxConns := 1, maxFails := 1,
      failTimeout := 10, down := false, backup := false }
  { primary :=
      { totalWeight := 2, tries := 1, single := false, weighted := false, name := "wiki-app"
        peer := ![{ server.peer "10.0.0.1:5000" with down := true },
          { server.peer "10.0.0.2:5000" with conns := 1 }] }
    next := some
      { totalWeight := 1, tries := 1, single := false, weighted := false, name := "wiki-app"
        peer := ![server.peer "10.0.0.3:5000"] } }

theorem getLeastConnPeer_answer_lastResort :
    Answer 5 lastResort (initRoundRobinPeer lastResort).1
      (getLeastConnPeer 5 lastResort (initRoundRobinPeer lastResort).1
        (initRoundRobinPeer lastResort).2) ∧
      (getLeastConnPeer 5 lastResort (initRoundRobinPeer lastResort).1
        (initRoundRobinPeer lastResort).2).rc = .ok := by
  refine ⟨getLeastConnPeer_answer 5 lastResort ⟨rfl, ?_⟩ _ _, by decide⟩
  intro backup same
  rw [← Option.some.inj same]

end AutoBurst.Nginx
