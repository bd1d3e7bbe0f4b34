/-
A request never gets the same peer twice. Its bitmap marks every peer it got
in the group it is in, it is cleared when the request turns to the backup
group, and it has a word for every position of either group.
-/

import AutoBurst.Nginx.Requests
import Mathlib.Data.Nat.Bitwise

namespace AutoBurst.Nginx

open Runs

variable {n m : Nat}

/-! ### Bits and words -/

private theorem word_bit (word k : Nat) : (word &&& 1 <<< k != 0) = word.testBit k := by
  rw [Nat.one_shiftLeft, Nat.and_two_pow]
  cases word.testBit k with
  | false => simp
  | true => simp

theorem triedBit_eq (tried : List Nat) (i : Nat) :
    triedBit tried i = (tried.getD (i / 64) 0).testBit (i % 64) :=
  word_bit _ _

/-- Marking sets its own bit and no other, provided the word is there. -/
theorem triedBit_markTried {tried : List Nat} {i : Nat} (inside : i / 64 < tried.length)
    (j : Nat) : triedBit (markTried tried i) j = (triedBit tried j || decide (i = j)) := by
  rw [triedBit_eq, triedBit_eq]
  unfold markTried
  rw [List.getD_eq_getElem?_getD, List.getElem?_modify, List.getD_eq_getElem?_getD]
  by_cases sameWord : i / 64 = j / 64
  · have there : tried[j / 64]? = some (tried[j / 64]) :=
      List.getElem?_eq_getElem (sameWord ▸ inside)
    have sameBit : (i % 64 = j % 64) ↔ i = j := by omega
    rw [there]
    simp only [Option.map_eq_map, Option.map_some, Option.getD_some, if_pos sameWord,
      Nat.testBit_or, Nat.one_shiftLeft, Nat.testBit_two_pow, sameBit]
  · have apart : i ≠ j := fun same => sameWord (congrArg (· / 64) same)
    simp only [Option.map_eq_map, if_neg sameWord, Option.map_id', apart, decide_false,
      Bool.or_false]

theorem length_markTried (tried : List Nat) (i : Nat) :
    (markTried tried i).length = tried.length :=
  List.length_modify _ _ _

theorem length_clearTried (tried : List Nat) (number : Nat) :
    (clearTried tried number).length = tried.length :=
  List.length_mapIdx

/-! ### The words a request is given -/

def allocatedWords (n m : Nat) : Nat :=
  if max n m ≤ 64 then 1 else (max n m + 63) / 64

theorem words_cover {n m i : Nat} (within : i < max n m) : i / 64 < allocatedWords n m := by
  unfold allocatedWords
  split <;> omega

theorem triedWords_le (n m : Nat) : triedWords m ≤ allocatedWords n m := by
  unfold triedWords allocatedWords
  split <;> omega

/-- Without backup servers there is no position in the backup group. -/
theorem Built.noBackup {up : Upstream n m} (built : Built up) (next : up.next = none) :
    m = 0 := by
  cases built with
  | servers host servers up positive built =>
      unfold initRoundRobin at built
      split at built
      · cases built
      split at built
      · rename_i none
        exact none
      · have upEq := Option.some.inj built
        subst upEq
        cases next
  | implicit host addrs => rfl

theorem Built.several {up : Upstream n m} (built : Built up)
    (several : up.primary.single = false) : Several up := by
  refine ⟨several, ?_⟩
  intro backup next
  exact (built.ok.backup backup next).2

theorem Built.length_tried {up : Upstream n m} (built : Built up) :
    (initRoundRobinPeer up).1.tried.length = allocatedWords n m := by
  have largest : up.triedNumber = max n m := by
    unfold Upstream.triedNumber
    cases next : up.next with
    | none =>
        have empty := built.noBackup next
        rw [Option.isSome_none, Bool.false_and, if_neg Bool.false_ne_true]
        omega
    | some backup =>
        rw [Option.isSome_some, Bool.true_and]
        by_cases larger : n < m
        · rw [if_pos (decide_eq_true larger)]
          omega
        · rw [if_neg (fun yes => larger (of_decide_eq_true yes))]
          omega
  unfold initRoundRobinPeer allocatedWords
  rw [largest]
  split
  · rfl
  · exact List.length_replicate

/-- The words of the bitmap a call of the request reads or writes: those of the
positions of its group and, when it turns to the backup group, the words it
clears and those of the positions there. -/
inductive TriedAccess (up : Upstream n m) (rrp : RrPeerData n m) : Nat → Prop
  | primary (i : Fin n) (group : rrp.peers = .primary) : TriedAccess up rrp (i / 64)
  | cleared (word : Nat) (next : up.next.isSome) (within : word < triedWords m) :
      TriedAccess up rrp word
  | backup (i : Fin m) (next : up.next.isSome) : TriedAccess up rrp (i / 64)

theorem TriedAccess.lt {up : Upstream n m} {rrp : RrPeerData n m} {word : Nat}
    (access : TriedAccess up rrp word) : word < allocatedWords n m := by
  cases access with
  | primary i group => exact words_cover (lt_max_of_lt_left i.isLt)
  | cleared word next within => exact within.trans_le (triedWords_le n m)
  | backup i next => exact words_cover (lt_max_of_lt_right i.isLt)

/-! ### No other word is touched -/

section Words

variable {now : Int} {tried other : List Nat} {i word : Nat}

theorem triedBit_congr (same : other.getD (i / 64) 0 = tried.getD (i / 64) 0) :
    triedBit other i = triedBit tried i := by
  unfold triedBit
  rw [same]

theorem getD_markTried (apart : word ≠ i / 64) :
    (markTried tried i).getD word 0 = tried.getD word 0 := by
  have elsewhere : i / 64 ≠ word := fun same => apart same.symm
  unfold markTried
  rw [List.getD_eq_getElem?_getD, List.getElem?_modify, List.getD_eq_getElem?_getD]
  simp only [Option.map_eq_map, if_neg elsewhere, Option.map_id']

/-- Both walks look at the bits of their own positions, and the choice marks one. -/
theorem leastConnIn_congr (peers : RrPeers n)
    (same : ∀ i : Fin n, triedBit other i = triedBit tried i) :
    leastConnIn now other peers =
      (leastConnIn now tried peers).map fun pick =>
        { pick with tried := markTried other pick.best } := by
  have scan : scanStep now other peers.peer = scanStep now tried peers.peer := by
    funext scan i
    unfold scanStep
    rw [same i]
  have tie : tieStep (n := n) now other = tieStep now tried := by
    funext pass i
    unfold tieStep
    rw [same i]
  unfold leastConnIn scanPeers breakTies tiePass
  rw [scan, tie, Option.map_map]
  rfl

private theorem leastConnIn_getD {peers : RrPeers n} {pick : Pick n}
    (found : leastConnIn now tried peers = some pick) (apart : ∀ i : Fin n, word ≠ i / 64) :
    pick.tried.getD word 0 = tried.getD word 0 := by
  rw [(leastConnIn_some found).marked]
  exact getD_markTried (apart pick.best)

structure SameButTried (out again : Outcome n m) : Prop where
  rc : again.rc = out.rc
  up : again.up = out.up
  pc : again.pc = out.pc
  group : again.rrp.peers = out.rrp.peers
  current : again.rrp.current = out.rrp.current

/-- What `triedBit`, `markTried` and `clearTried` are called with stays within
these words: a call that finds the same in them does the same, whatever the
bitmap holds elsewhere, and leaves the rest of the bitmap as it is. -/
theorem getLeastConnPeer_words {up : Upstream n m} (several : Several up) (now : Int)
    (rrp : RrPeerData n m) (pc : PeerConnection)
    (same : ∀ word, TriedAccess up rrp word → other.getD word 0 = rrp.tried.getD word 0) :
    SameButTried (getLeastConnPeer now up rrp pc)
        (getLeastConnPeer now up { rrp with tried := other } pc) ∧
      ∀ word, ¬TriedAccess up rrp word →
        (getLeastConnPeer now up rrp pc).rrp.tried.getD word 0 = rrp.tried.getD word 0 := by
  unfold getLeastConnPeer
  rw [if_neg (Bool.eq_false_iff.mp (several.not_single rrp)),
    if_neg (Bool.eq_false_iff.mp (several.not_single { rrp with tried := other }))]
  unfold getFrom
  cases group : rrp.peers with
  | primary =>
      have bits : ∀ i : Fin n, triedBit other i = triedBit rrp.tried i :=
        fun i => triedBit_congr (same _ (.primary i group))
      dsimp only
      rw [leastConnIn_congr up.primary bits]
      cases found : leastConnIn now rrp.tried up.primary with
      | some pick =>
          refine ⟨⟨rfl, rfl, rfl, group.symm, rfl⟩, fun word untouched => ?_⟩
          exact leastConnIn_getD found fun i here => untouched (here ▸ .primary i group)
      | none =>
          cases next : up.next with
          | none => exact ⟨⟨rfl, rfl, rfl, group.symm, rfl⟩, fun _word _untouched => rfl⟩
          | some backup =>
              have there : up.next.isSome = true := by
                rw [next]
                rfl
              have cleared : ∀ word, ¬TriedAccess up rrp word →
                  (clearTried rrp.tried m).getD word 0 = rrp.tried.getD word 0 := by
                intro word untouched
                rw [getD_clearTried, if_neg fun within => untouched (.cleared word there within)]
              have empty : ∀ i : Fin m, triedBit (clearTried other m) i =
                  triedBit (clearTried rrp.tried m) i := by
                intro i
                rw [triedBit_clearTried _ i.isLt, triedBit_clearTried _ i.isLt]
              dsimp only [Option.map_none, RrPeerData.toBackup]
              rw [several.leastConnOrSingle_eq next, several.leastConnOrSingle_eq next,
                leastConnIn_congr backup empty]
              cases foundThere : leastConnIn now (clearTried rrp.tried m) backup with
              | some pick =>
                  refine ⟨⟨rfl, rfl, rfl, rfl, rfl⟩, fun word untouched => ?_⟩
                  refine Eq.trans ?_ (cleared word untouched)
                  exact leastConnIn_getD foundThere fun i here =>
                    untouched (here ▸ .backup i there)
              | none => exact ⟨⟨rfl, rfl, rfl, rfl, rfl⟩, cleared⟩
  | backup =>
      cases next : up.next with
      | none => exact ⟨⟨rfl, rfl, rfl, group.symm, rfl⟩, fun _word _untouched => rfl⟩
      | some backup =>
          have there : up.next.isSome = true := by
            rw [next]
            rfl
          have bits : ∀ i : Fin m, triedBit other i = triedBit rrp.tried i :=
            fun i => triedBit_congr (same _ (.backup i there))
          dsimp only
          rw [several.leastConnOrSingle_eq next, several.leastConnOrSingle_eq next,
            leastConnIn_congr backup bits]
          cases found : leastConnIn now rrp.tried backup with
          | some pick =>
              refine ⟨⟨rfl, rfl, rfl, group.symm, rfl⟩, fun word untouched => ?_⟩
              exact leastConnIn_getD found fun i here => untouched (here ▸ .backup i there)
          | none => exact ⟨⟨rfl, rfl, rfl, group.symm, rfl⟩, fun _word _untouched => rfl⟩

end Words

/-! ### The bitmap and the peers returned -/

def position : Fin n ⊕ Fin m → Nat
  | .inl i => i
  | .inr i => i

theorem position_word (slot : Fin n ⊕ Fin m) : position slot / 64 < allocatedWords n m := by
  cases slot with
  | inl i => exact words_cover (lt_max_of_lt_left i.isLt)
  | inr i => exact words_cover (lt_max_of_lt_right i.isLt)

structure Tracked (rrp : RrPeerData n m) (returned : List (Fin n ⊕ Fin m)) : Prop where
  words : rrp.tried.length = allocatedWords n m
  nodup : returned.Nodup
  ordered : returned.Pairwise
    (fun earlier later => groupOf earlier = .backup → groupOf later = .backup)
  primaryOnly : rrp.peers = .primary → ∀ slot ∈ returned, groupOf slot = .primary
  marked : ∀ slot ∈ returned, groupOf slot = rrp.peers →
    triedBit rrp.tried (position slot) = true

section Tracking

variable {rrp : RrPeerData n m} {returned : List (Fin n ⊕ Fin m)}

theorem Tracked.turn (tracked : Tracked rrp returned) (group : rrp.peers = .primary) :
    Tracked rrp.toBackup returned where
  words := (length_clearTried rrp.tried m).trans tracked.words
  nodup := tracked.nodup
  ordered := tracked.ordered
  primaryOnly := nofun
  marked := by
    intro slot member there
    rw [tracked.primaryOnly group slot member] at there
    cases there

theorem Tracked.append (tracked : Tracked rrp returned) (slot : Fin n ⊕ Fin m)
    (here : groupOf slot = rrp.peers) (fresh : triedBit rrp.tried (position slot) = false)
    (current : Option (Fin n ⊕ Fin m)) :
    Tracked { rrp with current := current, tried := markTried rrp.tried (position slot) }
      (returned ++ [slot]) := by
  have new : slot ∉ returned := by
    intro member
    rw [tracked.marked slot member here] at fresh
    cases fresh
  have inside : position slot / 64 < rrp.tried.length := by
    rw [tracked.words]
    exact position_word slot
  refine ⟨(length_markTried _ _).trans tracked.words, ?_, ?_, ?_, ?_⟩
  · rw [List.nodup_append]
    refine ⟨tracked.nodup, List.nodup_singleton slot, ?_⟩
    intro old member last isLast same
    rw [List.mem_singleton.mp isLast] at same
    exact new (same ▸ member)
  · rw [List.pairwise_append]
    refine ⟨tracked.ordered, List.pairwise_singleton _ slot, ?_⟩
    intro old member last isLast wasBackup
    rw [List.mem_singleton.mp isLast, here]
    cases group : rrp.peers with
    | primary =>
        rw [tracked.primaryOnly group old member] at wasBackup
        cases wasBackup
    | backup => rfl
  · intro group old member
    rcases List.mem_append.mp member with earlier | isLast
    · exact tracked.primaryOnly group old earlier
    · rw [List.mem_singleton.mp isLast, here]
      exact group
  · intro old member there
    rw [triedBit_markTried inside, Bool.or_eq_true, decide_eq_true_eq]
    rcases List.mem_append.mp member with earlier | isLast
    · exact Or.inl (tracked.marked old earlier there)
    · rw [List.mem_singleton.mp isLast]
      exact Or.inr rfl

/-- One call of the request, in whatever state the peers are. -/
theorem Tracked.got {up : Upstream n m} (several : Several up) {request : Request n m}
    (tracked : Tracked request.rrp request.returned) (now : Int) :
    Tracked (request.got (getLeastConnPeer now up request.rrp request.pc)).rrp
      (request.got (getLeastConnPeer now up request.rrp request.pc)).returned := by
  have ends := several.ends now request.rrp request.pc
  generalize getLeastConnPeer now up request.rrp request.pc = out at ends
  have idle : request.returned ++ [] = request.returned := List.append_nil _
  cases ends with
  | primary pick group found =>
      have picked := leastConnIn_some found
      have appended := tracked.append (.inl pick.best) group.symm
        (eligible_not_tried picked.isEligible) (some (.inl pick.best))
      change Tracked { request.rrp with current := _, tried := pick.tried } _
      rw [picked.marked]
      exact appended
  | turned backup pick group nothing next found =>
      rw [several.leastConnOrSingle_eq next] at found
      have picked := leastConnIn_some found
      have appended := (tracked.turn group).append (.inr pick.best) rfl
        (eligible_not_tried picked.isEligible) (some (.inr pick.best))
      change Tracked { request.rrp.toBackup with current := _, tried := pick.tried } _
      rw [picked.marked]
      exact appended
  | backup backup pick group next found =>
      rw [several.leastConnOrSingle_eq next] at found
      have picked := leastConnIn_some found
      have appended := tracked.append (.inr pick.best) group.symm
        (eligible_not_tried picked.isEligible) (some (.inr pick.best))
      change Tracked { request.rrp with current := _, tried := pick.tried } _
      rw [picked.marked]
      exact appended
  | noBackup name group nothing next =>
      change Tracked request.rrp (request.returned ++ [])
      rw [idle]
      exact tracked
  | neither name backup group nothing next nothingThere =>
      change Tracked request.rrp.toBackup (request.returned ++ [])
      rw [idle]
      exact tracked.turn group
  | exhausted name group nothing =>
      change Tracked request.rrp (request.returned ++ [])
      rw [idle]
      exact tracked

end Tracking

/-! ### Every interleaving -/

structure SameShape (up after : Upstream n m) : Prop where
  primary : after.primary.single = up.primary.single
  next : after.next.map RrPeers.single = up.next.map RrPeers.single

theorem SameShape.trans {up middle after : Upstream n m} (first : SameShape up middle)
    (second : SameShape middle after) : SameShape up after :=
  ⟨second.primary.trans first.primary, second.next.trans first.next⟩

theorem SameShape.several {up after : Upstream n m} (same : SameShape up after)
    (several : Several up) : Several after := by
  refine ⟨same.primary.trans several.primary, ?_⟩
  intro backup next
  have flags := same.next
  rw [next] at flags
  obtain ⟨old, nextOld, single⟩ := Option.map_eq_some_iff.mp flags.symm
  rw [← single]
  exact several.backup old nextOld

theorem getLeastConnPeer_sameShape (now : Int) (up : Upstream n m) (rrp : RrPeerData n m)
    (pc : PeerConnection) : SameShape up (getLeastConnPeer now up rrp pc).up := by
  obtain ⟨inPrimary, inBackup, _, _, ends⟩ := getLeastConnPeer_ends now up rrp pc
  generalize getLeastConnPeer now up rrp pc = out at ends
  cases ends with
  | primary pick group found => exact ⟨rfl, rfl⟩
  | turned backup pick group nothing next found => exact ⟨rfl, by rw [next]; rfl⟩
  | backup backup pick group next found => exact ⟨rfl, by rw [next]; rfl⟩
  | noBackup name group nothing next => exact ⟨rfl, rfl⟩
  | neither name backup group nothing next nothingThere => exact ⟨rfl, rfl⟩
  | exhausted name group nothing => exact ⟨rfl, rfl⟩

theorem freeRoundRobinPeer_sameShape {now : Int} {up : Upstream n m} {rrp : RrPeerData n m}
    {pc : PeerConnection} {state : Nat} {freed : Upstream n m × PeerConnection}
    (taken : freeRoundRobinPeer now up rrp pc state = some freed) : SameShape up freed.1 := by
  unfold freeRoundRobinPeer at taken
  cases current : rrp.current with
  | none =>
      rw [current] at taken
      cases taken
  | some slot =>
      rw [current] at taken
      cases slot with
      | inl i =>
          have freedEq := Option.some.inj taken
          subst freedEq
          exact ⟨rfl, rfl⟩
      | inr i =>
          obtain ⟨backup, next, freedEq⟩ := Option.map_eq_some_iff.mp taken
          subst freedEq
          exact ⟨rfl, by rw [next]; rfl⟩

section Runs

variable {ι : Type} [DecidableEq ι]

structure Tracks (up : Upstream n m) (state : Balancer ι n m) : Prop where
  shape : SameShape up state.up
  requests : ∀ who request, state.request who = some request →
    Tracked request.rrp request.returned

private theorem requests_update {state : Balancer ι n m} {who : ι}
    {changed : Option (Request n m)}
    (requests : ∀ other request, state.request other = some request →
      Tracked request.rrp request.returned)
    (tracked : ∀ request, changed = some request → Tracked request.rrp request.returned) :
    ∀ other request, Function.update state.request who changed other = some request →
      Tracked request.rrp request.returned := by
  intro other request found
  by_cases here : other = who
  · subst here
    rw [Function.update_self] at found
    exact tracked request found
  · rw [Function.update_of_ne here] at found
    exact requests other request found

/-- A request begins with an empty bitmap of the allocated size. -/
theorem Built.tracked_arrival {up current : Upstream n m} (built : Built up)
    (same : SameShape up current) : Tracked current.arrival.rrp current.arrival.returned where
  words := by
    have unmoved : current.triedNumber = up.triedNumber := by
      have flags := congrArg Option.isSome same.next
      rw [Option.isSome_map, Option.isSome_map] at flags
      unfold Upstream.triedNumber
      rw [flags]
    have length : (initRoundRobinPeer current).1.tried.length =
        (initRoundRobinPeer up).1.tried.length := by
      unfold initRoundRobinPeer
      rw [unmoved]
    exact length.trans built.length_tried
  nodup := List.nodup_nil
  ordered := List.Pairwise.nil
  primaryOnly := by
    intro _group slot member
    cases member
  marked := by
    intro slot member
    cases member

theorem Tracks.of_step {up : Upstream n m} (built : Built up)
    (several : up.primary.single = false) {state after : Balancer ι n m} {event : Event ι}
    (tracks : Tracks up state) (taken : state.step event = some after) : Tracks up after := by
  cases event with
  | arrive who =>
      cases found : state.request who with
      | some request =>
          simp only [Balancer.step, found] at taken
          cases taken
      | none =>
          simp only [Balancer.step, found] at taken
          have afterEq := Option.some.inj taken
          subst afterEq
          refine ⟨tracks.shape, requests_update tracks.requests ?_⟩
          intro request same
          rw [← Option.some.inj same]
          exact built.tracked_arrival tracks.shape
  | get who now =>
      obtain ⟨request, found, rfl⟩ := Option.map_eq_some_iff.mp taken
      refine ⟨tracks.shape.trans (getLeastConnPeer_sameShape now _ _ _),
        requests_update tracks.requests ?_⟩
      intro changed same
      rw [← Option.some.inj same]
      exact (tracks.requests who request found).got
        (tracks.shape.several (built.several several)) now
  | free who now freeState =>
      obtain ⟨request, found, rest⟩ := Option.bind_eq_some_iff.mp taken
      obtain ⟨freed, released, rfl⟩ := Option.map_eq_some_iff.mp rest
      refine ⟨tracks.shape.trans (freeRoundRobinPeer_sameShape released),
        requests_update tracks.requests ?_⟩
      intro changed same
      rw [← Option.some.inj same]
      exact tracks.requests who request found
  | leave who =>
      obtain ⟨request, found, rfl⟩ := Option.map_eq_some_iff.mp taken
      refine ⟨tracks.shape, requests_update tracks.requests ?_⟩
      intro changed same
      cases same

/-- Whatever the other requests do in between, the peers a request gets are
distinct, no primary one follows a backup one, there are at most as many as
there are peers, and the bitmap is accessed within what was allocated. -/
theorem retries_distinct {up : Upstream n m} (built : Built up)
    (several : up.primary.single = false) {state : Balancer ι n m}
    (reach : Reach Balancer.step (fun _ _ => True) (Balancer.launch up) state)
    {who : ι} {request : Request n m} (there : state.request who = some request) :
    request.returned.Nodup ∧
      request.returned.Pairwise
        (fun earlier later => groupOf earlier = .backup → groupOf later = .backup) ∧
      request.returned.length ≤ n + m ∧
      request.rrp.tried.length = allocatedWords n m ∧
      ∀ word, TriedAccess state.up request.rrp word → word < request.rrp.tried.length := by
  have tracks : Tracks up state := reach.invariant (Tracks up)
    ⟨⟨rfl, rfl⟩, nofun⟩
    (fun _before _event _after taken _ held => held.of_step built several taken)
  have tracked := tracks.requests who request there
  refine ⟨tracked.nodup, tracked.ordered, ?_, tracked.words, ?_⟩
  · have bound := tracked.nodup.length_le_card
    rw [Fintype.card_sum, Fintype.card_fin, Fintype.card_fin] at bound
    exact bound
  · intro word access
    rw [tracked.words]
    exact access.lt

end Runs

/-- The first request of the sample got both primary peers. -/
theorem retries_distinct_sample :
    ∃ state request, run (guarded Balancer.step (fun _ _ => True))
        (Balancer.launch sampleUpstream) sampleEvents = some state ∧
      state.request ⟨0, by decide⟩ = some request ∧
      request.returned = [.inl 0, .inl 1] ∧ request.returned.Nodup := by
  have returned : ((run (guarded Balancer.step (fun _ _ => True))
      (Balancer.launch sampleUpstream) sampleEvents).bind
        (fun state => (state.request ⟨0, by decide⟩).map
          (fun request => (state, request)))).map (fun both => both.2.returned) =
        some [.inl 0, .inl 1] := by decide +kernel
  obtain ⟨both, ranBoth, same⟩ := Option.map_eq_some_iff.mp returned
  obtain ⟨state, ran, found⟩ := Option.bind_eq_some_iff.mp ranBoth
  obtain ⟨request, there, rfl⟩ := Option.map_eq_some_iff.mp found
  exact ⟨state, request, ran, there, same,
    (retries_distinct sampleUpstream_built rfl (reach_of_guarded_run ran) there).1⟩

end AutoBurst.Nginx
