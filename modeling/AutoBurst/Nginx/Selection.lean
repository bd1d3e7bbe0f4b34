/-
Which peer the modified least_conn balancer selects, and over which peers its
round-robin pass runs.

The first walk minimises (conns + 1) / weight; ties are still recognised by
conns / weight. The two agree on a pair of peers only if their weights agree,
and that is exactly when the selection follows (conns + 1) / weight throughout.
-/

import AutoBurst.Nginx.LeastConnWalks

namespace AutoBurst.Nginx

variable {n : Nat} {now : Int} {tried : List Nat} {peer : Fin n → RrPeer}

/-! ### The selection by (conns + 1) / weight -/

/-- `(s.conns + 1) / s.weight ≤ (q.conns + 1) / q.weight`, as cross products. -/
def NotAbove (s q : RrPeer) : Prop :=
  ((s.conns : Int) + 1) * q.weight ≤ (q.conns + 1) * s.weight

instance (s q : RrPeer) : Decidable (NotAbove s q) :=
  inferInstanceAs (Decidable (_ ≤ _))

def Attains (now : Int) (tried : List Nat) (peer : Fin n → RrPeer) (s : Fin n) : Prop :=
  eligible now tried peer s = true ∧
    ∀ q, eligible now tried peer q = true → NotAbove (peer s) (peer q)

/-- The choice attains the minimum, and the round-robin pass runs over nothing
but such peers, over all of them when there are several. -/
structure SelectsByLoad (now : Int) (tried : List Nat) (peer : Fin n → RrPeer)
    (pick : Pick n) : Prop where
  chosen : Attains now tried peer pick.best
  onlyMinima : ∀ i ∈ pick.ran, Attains now tried peer i
  allMinima : (∃ i j, i ≠ j ∧ Attains now tried peer i ∧ Attains now tried peer j) →
    ∀ i, Attains now tried peer i → i ∈ pick.ran

/-! ### When the two criteria agree -/

def SameLoad (a b : RrPeer) : Prop :=
  ((a.conns : Int) + 1) * b.weight = (b.conns + 1) * a.weight

def SameConns (a b : RrPeer) : Prop :=
  (a.conns : Int) * b.weight = b.conns * a.weight

/-- Past the first eligible peer of least load, an eligible peer that ties with
it under either criterion has its weight. -/
def TiesAgree (now : Int) (tried : List Nat) (peer : Fin n → RrPeer) : Prop :=
  ∀ first, FirstLeast now tried peer n first → ∀ q, first < q →
    eligible now tried peer q = true →
    SameConns (peer q) (peer first) ∨ SameLoad (peer q) (peer first) →
    (peer q).weight = (peer first).weight

private theorem weight_eq_of_ties {a b : RrPeer} (conns : SameConns a b)
    (load : SameLoad a b) : a.weight = b.weight := by
  unfold SameConns at conns
  unfold SameLoad at load
  linarith

private theorem sameLoad_iff_sameConns {a b : RrPeer} (weights : a.weight = b.weight) :
    SameLoad a b ↔ SameConns a b := by
  unfold SameLoad SameConns
  rw [weights]
  constructor <;> intro same <;> linarith

section Walks

variable (sized : Sized peer) {first : Fin n} (least : FirstLeast now tried peer n first)
include sized least

theorem first_attains : Attains now tried peer first := by
  refine ⟨least.isEligible, fun q isEligible => ?_⟩
  apply (sized.load_le_iff first q).mp
  rcases lt_trichotomy q first with earlier | same | later
  · exact (least.before q earlier isEligible).le
  · rw [same]
  · exact least.after q later q.isLt isEligible

private theorem attains_iff (i : Fin n) :
    Attains now tried peer i ↔
      first ≤ i ∧ eligible now tried peer i = true ∧ SameLoad (peer i) (peer first) := by
  have firstAttains := first_attains sized least
  constructor
  · rintro ⟨isEligible, minimal⟩
    refine ⟨?_, isEligible, ?_⟩
    · by_contra earlier
      have below := least.before i (not_le.mp earlier) isEligible
      have above := (sized.load_le_iff i first).mpr (minimal first least.isEligible)
      exact absurd below (not_lt.mpr above)
    · exact le_antisymm (minimal first least.isEligible) (firstAttains.2 i isEligible)
  · rintro ⟨_later, isEligible, same⟩
    refine ⟨isEligible, fun q qEligible => ?_⟩
    apply (sized.load_le_iff i q).mp
    have equal : (peer i).load ≤ (peer first).load := (sized.load_le_iff i first).mpr same.le
    exact equal.trans ((sized.load_le_iff first q).mpr (firstAttains.2 q qEligible))

theorem ran_iff {many : Bool} (manyIff : many = true ↔ Rival now tried peer n first)
    (i : Fin n) :
    i ∈ (breakTies now tried peer first many).tally.ran ↔
      Rival now tried peer n first ∧ first ≤ i ∧ eligible now tried peer i = true ∧
        SameConns (peer i) (peer first) := by
  unfold breakTies
  by_cases isMany : many = true
  · rw [if_pos isMany, mem_tiePass_ran_iff sized least.isEligible,
      and_iff_right (manyIff.mp isMany), sized.ratio_eq_iff]
    exact Iff.rfl
  · rw [if_neg isMany]
    have noRival := fun rival => isMany (manyIff.mpr rival)
    constructor
    · intro impossible
      cases impossible
    · intro both
      exact absurd both.1 noRival

end Walks

private theorem rival_of_sameConns (sized : Sized peer) {first q : Fin n} (later : first < q)
    (isEligible : eligible now tried peer q = true)
    (same : SameConns (peer q) (peer first)) : Rival now tried peer n first :=
  ⟨q, later, q.isLt, isEligible, (sized.ratio_eq_iff q first).mpr same⟩

theorem breakTies_best_mem {first : Fin n} {many : Bool}
    (firstEligible : eligible now tried peer first = true) :
    (breakTies now tried peer first many).best = first ∨
      (breakTies now tried peer first many).best ∈
        (breakTies now tried peer first many).tally.ran := by
  unfold breakTies
  split
  · rcases (tiePass_tieAt firstEligible).chosen with member | ⟨_, same⟩
    · exact Or.inr member
    · exact Or.inl same
  · exact Or.inl rfl

private theorem selects_of_tiesAgree (sized : Sized peer) {first : Fin n} {many : Bool}
    (least : FirstLeast now tried peer n first)
    (manyIff : many = true ↔ Rival now tried peer n first)
    (agree : TiesAgree now tried peer) :
    SelectsByLoad now tried peer
      ((breakTies now tried peer first many).choose now tried) := by
  have onlyMinima : ∀ i ∈ (breakTies now tried peer first many).tally.ran,
      Attains now tried peer i := by
    intro i member
    obtain ⟨_rival, later, isEligible, same⟩ := (ran_iff sized least manyIff i).mp member
    rcases eq_or_lt_of_le later with atFirst | past
    · exact atFirst ▸ first_attains sized least
    · have weights := agree first least i past isEligible (Or.inl same)
      exact (attains_iff sized least i).mpr
        ⟨later, isEligible, (sameLoad_iff_sameConns weights).mpr same⟩
  refine ⟨?_, onlyMinima, ?_⟩
  · rcases breakTies_best_mem least.isEligible with same | member
    · exact (congrArg (Attains now tried peer) same).mpr (first_attains sized least)
    · exact onlyMinima _ member
  · rintro ⟨a, b, different, aAttains, bAttains⟩ i iAttains
    have tied : ∀ q, Attains now tried peer q → SameConns (peer q) (peer first) := by
      intro q qAttains
      obtain ⟨later, isEligible, same⟩ := (attains_iff sized least q).mp qAttains
      rcases eq_or_lt_of_le later with atFirst | past
      · rw [atFirst]
        rfl
      · exact (sameLoad_iff_sameConns
          (agree first least q past isEligible (Or.inr same))).mp same
    have rival : Rival now tried peer n first := by
      by_cases aFirst : first = a
      · have past : first < b := lt_of_le_of_ne
          ((attains_iff sized least b).mp bAttains).1 (aFirst ▸ different)
        exact rival_of_sameConns sized past bAttains.1 (tied b bAttains)
      · have past : first < a := lt_of_le_of_ne
          ((attains_iff sized least a).mp aAttains).1 aFirst
        exact rival_of_sameConns sized past aAttains.1 (tied a aAttains)
    exact (ran_iff sized least manyIff i).mpr
      ⟨rival, ((attains_iff sized least i).mp iAttains).1, iAttains.1, tied i iAttains⟩

private theorem FirstLeast.unique {first other : Fin n}
    (least : FirstLeast now tried peer n first) (also : FirstLeast now tried peer n other) :
    first = other := by
  rcases lt_trichotomy first other with earlier | same | later
  · exact absurd (also.before first earlier least.isEligible)
      (not_lt.mpr (least.after other earlier other.isLt also.isEligible))
  · exact same
  · exact absurd (least.before other later also.isEligible)
      (not_lt.mpr (also.after first later first.isLt least.isEligible))

private theorem tiesAgree_of_selects (sized : Sized peer) {first : Fin n} {many : Bool}
    (least : FirstLeast now tried peer n first)
    (manyIff : many = true ↔ Rival now tried peer n first)
    (selects : SelectsByLoad now tried peer
      ((breakTies now tried peer first many).choose now tried)) :
    TiesAgree now tried peer := by
  intro other also q past isEligible tie
  have same := also.unique least
  subst same
  rcases tie with conns | load
  · have member := (ran_iff sized least manyIff q).mpr
      ⟨rival_of_sameConns sized past isEligible conns, past.le, isEligible, conns⟩
    have minimum := selects.onlyMinima q member
    exact weight_eq_of_ties conns ((attains_iff sized least q).mp minimum).2.2
  · have qAttains := (attains_iff sized least q).mpr ⟨past.le, isEligible, load⟩
    have member := selects.allMinima
      ⟨other, q, past.ne, first_attains sized least, qAttains⟩ q qAttains
    exact weight_eq_of_ties ((ran_iff sized least manyIff q).mp member).2.2.2 load

/-! ### The selection of a whole call -/

theorem scanPeers_of_eligible (sized : Sized peer) {i : Fin n}
    (isEligible : eligible now tried peer i = true) :
    ∃ first many, scanPeers now tried peer = { best := some first, many := many } ∧
      FirstLeast now tried peer n first ∧ (many = true ↔ Rival now tried peer n first) := by
  have scanned : ScanAt now tried peer n (scanPeers now tried peer) := scanPeers_scanAt sized
  rcases found : scanPeers now tried peer with ⟨best, many⟩
  rw [found] at scanned
  cases best with
  | none =>
      rw [scanned i i.isLt] at isEligible
      cases isEligible
  | some first => exact ⟨first, many, rfl, scanned.1, scanned.2⟩

theorem leastConnIn_of_scan {peers : RrPeers n} {first : Fin n} {many : Bool}
    (scanned : scanPeers now tried peers.peer = { best := some first, many := many }) :
    leastConnIn now tried peers =
      some ((breakTies now tried peers.peer first many).choose now tried) := by
  unfold leastConnIn
  rw [scanned]
  rfl

/-- Every call by a request that points at this group, as the primary or as
the backup group of an upstream, returns this pick. -/
def Returns (now : Int) (tried : List Nat) (peers : RrPeers n) (pick : Pick n) : Prop :=
  (∀ (m : Nat) (up : Upstream n m) (rrp : RrPeerData n m) (pc : PeerConnection),
    up.primary = peers → rrp.peers = .primary → rrp.tried = tried →
    getLeastConnPeer now up rrp pc = pick.inPrimary up rrp pc) ∧
  (∀ (k : Nat) (up : Upstream k n) (rrp : RrPeerData k n) (pc : PeerConnection),
    up.next = some peers → rrp.peers = .backup → rrp.tried = tried →
    getLeastConnPeer now up rrp pc = pick.inBackup up peers rrp pc)

theorem returns_of_leastConnIn {peers : RrPeers n} {pick : Pick n}
    (several : peers.single = false) (found : leastConnIn now tried peers = some pick) :
    Returns now tried peers pick := by
  constructor
  · intro m up rrp pc primary group bitmap
    subst primary bitmap
    have multiple : rrp.single up = false := by
      unfold RrPeerData.single
      rw [group]
      exact several
    unfold getLeastConnPeer getFrom
    rw [if_neg (by rw [multiple]; exact Bool.false_ne_true), group]
    dsimp only
    rw [found]
  · intro k up rrp pc next group bitmap
    subst bitmap
    have multiple : rrp.single up = false := by
      unfold RrPeerData.single
      rw [group, next]
      exact several
    unfold getLeastConnPeer getFrom leastConnOrSingle
    rw [if_neg (by rw [multiple]; exact Bool.false_ne_true), group, next]
    dsimp only
    rw [if_neg (by rw [several]; exact Bool.false_ne_true), found]

/-- With a peer eligible the call succeeds, and it selects by
(conns + 1) / weight, ties included, if and only if every tie with the first
peer of least load is a tie between equal weights. -/
theorem leastConn_selectsByLoad_iff (now : Int) (tried : List Nat) (peers : RrPeers n)
    (several : peers.single = false) (sized : Sized peers.peer)
    (available : ∃ i, eligible now tried peers.peer i = true) :
    ∃ pick, leastConnIn now tried peers = some pick ∧ Returns now tried peers pick ∧
      (SelectsByLoad now tried peers.peer pick ↔ TiesAgree now tried peers.peer) := by
  obtain ⟨i, isEligible⟩ := available
  obtain ⟨first, many, scanned, least, manyIff⟩ := scanPeers_of_eligible sized isEligible
  have found := leastConnIn_of_scan scanned
  exact ⟨_, found, returns_of_leastConnIn several found,
    tiesAgree_of_selects sized least manyIff, selects_of_tiesAgree sized least manyIff⟩

/-! ### A tie between unequal weights -/

def idlePeer (weight current : Int) (conns : Nat) : RrPeer :=
  { name := "10.0.0.1:5000"
    currentWeight := current
    effectiveWeight := weight
    weight := weight
    conns := conns
    maxConns := 0
    fails := 0
    accessed := 0
    checked := 0
    maxFails := 1
    failTimeout := 10
    down := false }

/-- Weights 10 and 1, both idle, after five requests that all went to the
first peer and were released again. -/
def idlePair : RrPeers 2 :=
  { totalWeight := 11
    tries := 2
    single := false
    weighted := true
    name := "wiki-app"
    peer := ![idlePeer 10 (-5) 0, idlePeer 1 5 0] }

private theorem idlePair_sized : Sized idlePair.peer where
  positive := by decide
  noWrap := by decide

/-- The second peer is chosen at load 1 / 1 although the first has load 1 / 10. -/
theorem leastConn_selectsByLoad_fails :
    idlePair.single = false ∧ Sized idlePair.peer ∧
      (∃ i, eligible 0 [0] idlePair.peer i = true) ∧
      ¬∃ pick, leastConnIn 0 [0] idlePair = some pick ∧
        SelectsByLoad 0 [0] idlePair.peer pick := by
  refine ⟨rfl, idlePair_sized, ⟨0, by decide⟩, ?_⟩
  rintro ⟨pick, found, selects⟩
  have best : (leastConnIn 0 [0] idlePair).map Pick.best = some 1 := by decide
  rw [found] at best
  have same : pick.best = 1 := Option.some.inj best
  have minimal := selects.chosen.2 0 (by decide)
  rw [same] at minimal
  exact absurd minimal (by decide)

theorem leastConn_selectsByLoad_iff_idle :
    ∃ pick, leastConnIn 0 [0] idlePair = some pick ∧ Returns 0 [0] idlePair pick ∧
      (SelectsByLoad 0 [0] idlePair.peer pick ↔ TiesAgree 0 [0] idlePair.peer) :=
  leastConn_selectsByLoad_iff 0 [0] idlePair rfl idlePair_sized ⟨0, by decide⟩

end AutoBurst.Nginx
