/-
Load stays proportional to weight. Whatever the tie pass picks has the
conns / weight of the first peer of least (conns + 1) / weight, so one more
connection never carries a peer past the next connection of any other.
-/

import AutoBurst.Nginx.Selection

namespace AutoBurst.Nginx

variable {n m : Nat} {now : Int} {tried : List Nat}

/-! ### What a pick changes -/

theorem breakTies_peer {peer : Fin n → RrPeer} {first : Fin n} (many : Bool)
    (firstEligible : eligible now tried peer first = true) (i : Fin n) :
    (breakTies now tried peer first many).tally.peer i = peer i ∨
      (breakTies now tried peer first many).tally.peer i = (peer i).gain := by
  unfold breakTies
  split
  · rw [(tiePass_tieAt firstEligible).peers i]
    split
    · exact Or.inr rfl
    · exact Or.inl rfl
  · exact Or.inl rfl

structure Connects (peer after : Fin n → RrPeer) (s : Fin n) : Prop where
  weight : ∀ i, (after i).weight = (peer i).weight
  down : ∀ i, (after i).down = (peer i).down
  fails : ∀ i, (after i).fails = (peer i).fails
  maxConns : ∀ i, (after i).maxConns = (peer i).maxConns
  conns : ∀ i, (after i).conns =
    if i = s then uintWrap ((peer i).conns + 1) else (peer i).conns

theorem choose_peer {peer : Fin n → RrPeer} {first : Fin n} (many : Bool)
    (firstEligible : eligible now tried peer first = true) (i : Fin n) :
    ∃ before, (before = peer i ∨ before = (peer i).gain) ∧
      ((breakTies now tried peer first many).choose now tried).peer i =
        if i = (breakTies now tried peer first many).best then
          (before.settle now (breakTies now tried peer first many).tally.total).connect
        else before := by
  refine ⟨_, breakTies_peer many firstEligible i, ?_⟩
  change Function.update _ (breakTies now tried peer first many).best _ i = _
  by_cases same : i = (breakTies now tried peer first many).best
  · rw [if_pos same, same, Function.update_self]
  · rw [if_neg same, Function.update_of_ne same]

theorem choose_connects {peer : Fin n → RrPeer} {first : Fin n} (many : Bool)
    (firstEligible : eligible now tried peer first = true) :
    Connects peer ((breakTies now tried peer first many).choose now tried).peer
      (breakTies now tried peer first many).best := by
  constructor
  all_goals
    intro i
    obtain ⟨before, known, same⟩ := choose_peer many firstEligible i
    rw [same]
    rcases known with untouched | gained
    · subst untouched
      split <;> rfl
    · subst gained
      split <;> rfl

/-! ### All peers eligible -/

structure Healthy (peer : Fin n → RrPeer) : Prop where
  notDown : ∀ i, (peer i).down = false
  noFails : ∀ i, (peer i).fails = 0
  noLimit : ∀ i, (peer i).maxConns = 0

theorem triedBit_fresh (up : Upstream n m) (i : Nat) :
    triedBit (initRoundRobinPeer up).1.tried i = false := by
  have zeros : ∀ word ∈ (initRoundRobinPeer up).1.tried, word = 0 := by
    intro word member
    unfold initRoundRobinPeer at member
    dsimp only at member
    split at member
    · exact List.mem_singleton.mp member
    · exact List.eq_of_mem_replicate member
  have read : (initRoundRobinPeer up).1.tried.getD (i / 64) 0 = 0 := by
    rw [List.getD_eq_getElem?_getD]
    cases found : (initRoundRobinPeer up).1.tried[i / 64]? with
    | none => rfl
    | some word => exact zeros word (List.mem_of_getElem? found)
  unfold triedBit
  rw [read, Nat.zero_and]
  rfl

theorem Healthy.eligible {peer : Fin n → RrPeer} (healthy : Healthy peer) (now : Int)
    (up : Upstream n m) (i : Fin n) :
    eligible now (initRoundRobinPeer up).1.tried peer i = true := by
  unfold Nginx.eligible RrPeer.failedOut RrPeer.full
  rw [triedBit_fresh, healthy.notDown, healthy.noFails, healthy.noLimit]
  cases (peer i).maxFails <;> rfl

theorem Connects.healthy {peer after : Fin n → RrPeer} {s : Fin n}
    (connects : Connects peer after s) (healthy : Healthy peer) : Healthy after where
  notDown := fun i => (connects.down i).trans (healthy.notDown i)
  noFails := fun i => (connects.fails i).trans (healthy.noFails i)
  noLimit := fun i => (connects.maxConns i).trans (healthy.noLimit i)

/-! ### Fresh requests without releases -/

def routeFresh (up : Upstream n m) (now : Int) : Upstream n m :=
  (getLeastConnPeer now up (initRoundRobinPeer up).1 (initRoundRobinPeer up).2).up

def routeAll (up : Upstream n m) (times : List Int) : Upstream n m :=
  times.foldl routeFresh up

/-- Whatever the tie pass did, the choice has the first peer's conns / weight. -/
private theorem best_ratio {peer : Fin n → RrPeer} (sized : Sized peer) {first : Fin n}
    {many : Bool} (least : FirstLeast now tried peer n first)
    (manyIff : many = true ↔ Rival now tried peer n first) :
    (peer (breakTies now tried peer first many).best).ratio = (peer first).ratio := by
  rcases breakTies_best_mem least.isEligible with same | member
  · rw [same]
  · exact (sized.ratio_eq_iff _ first).mpr
      ((ran_iff sized least manyIff _).mp member).2.2.2

/-- The chosen peer held less per weight than the next connection of any peer
would bring that peer to. -/
theorem routeFresh_connects {up : Upstream n m} (several : up.primary.single = false)
    (healthy : Healthy up.primary.peer) (sized : Sized up.primary.peer) (i : Fin n)
    (now : Int) :
    ∃ s, Connects up.primary.peer (routeFresh up now).primary.peer s ∧
      (routeFresh up now).primary.single = false ∧
      ∀ j, ((up.primary.peer s).conns : Int) * (up.primary.peer j).weight <
        ((up.primary.peer j).conns + 1) * (up.primary.peer s).weight := by
  have isEligible := healthy.eligible now up
  obtain ⟨first, many, scanned, least, manyIff⟩ := scanPeers_of_eligible sized (isEligible i)
  have found := leastConnIn_of_scan scanned
  have outcome := (returns_of_leastConnIn several found).1 m up (initRoundRobinPeer up).1
    (initRoundRobinPeer up).2 rfl rfl rfl
  refine ⟨(breakTies now (initRoundRobinPeer up).1.tried up.primary.peer first many).best,
    ?_, ?_, ?_⟩
  · unfold routeFresh
    rw [outcome]
    exact choose_connects many least.isEligible
  · unfold routeFresh
    rw [outcome]
    exact several
  · intro j
    rw [← sized.ratio_lt_load_iff, best_ratio sized least manyIff]
    have leastLoad := (sized.load_le_iff first j).mpr
      ((first_attains sized least).2 j (isEligible j))
    exact (sized.ratio_lt_load first).trans_le leastLoad

/-- One connection less than `i` holds, per weight of `i`, stays below one more
than `j` holds, per weight of `j`. -/
def Proportional (peer : Fin n → RrPeer) : Prop :=
  ∀ i j, (((peer i).conns : Int) - 1) * (peer j).weight <
    ((peer j).conns + 1) * (peer i).weight

theorem Connects.proportional {peer after : Fin n → RrPeer} {s : Fin n}
    (connects : Connects peer after s) (sized : Sized peer)
    (proportional : Proportional peer)
    (room : ∀ j, ((peer s).conns : Int) * (peer j).weight <
      ((peer j).conns + 1) * (peer s).weight) : Proportional after := by
  have counted : ∀ i, ((after i).conns : Int) =
      (peer i).conns + (if i = s then 1 else 0) := by
    intro i
    rw [connects.conns i]
    split
    · have exact := sized.noWrap i i
      have positive := sized.positive i
      have small : ((peer i).conns : Int) + 1 < 2 ^ 64 := by
        nlinarith [Int.natCast_nonneg (peer i).conns]
      unfold uintWrap
      omega
    · rw [add_zero]
  intro i j
  rw [counted i, counted j, connects.weight i, connects.weight j]
  have before := proportional i j
  have heavier := sized.positive i
  have other := sized.positive j
  by_cases chosen : i = s
  · subst chosen
    have bound := room j
    rw [if_pos rfl]
    split
    · rename_i same
      subst same
      linarith
    · linarith
  · rw [if_neg chosen]
    split <;> linarith

/-- After any number of calls by fresh requests, with every peer eligible and
nothing released, connections are proportional to weights up to one. -/
theorem routeAll_proportional (up : Upstream n m) (times : List Int)
    (several : up.primary.single = false) (healthy : Healthy up.primary.peer)
    (positive : ∀ i, 1 ≤ (up.primary.peer i).weight)
    (idle : ∀ i, (up.primary.peer i).conns = 0)
    (noWrap : ∀ k < times.length, Sized (routeAll up (times.take k)).primary.peer) :
    Proportional (routeAll up times).primary.peer := by
  have initial : Proportional up.primary.peer := by
    intro i j
    rw [idle i, idle j]
    have heavier := positive i
    have other := positive j
    push_cast
    linarith
  clear idle positive
  induction times generalizing up with
  | nil => exact initial
  | cons now rest ih =>
      intro i j
      have sized : Sized up.primary.peer := noWrap 0 (Nat.zero_lt_succ _)
      obtain ⟨s, connects, stillSeveral, room⟩ :=
        routeFresh_connects several healthy sized i now
      exact ih (routeFresh up now) stillSeveral (connects.healthy healthy)
        (fun k below => noWrap (k + 1) (Nat.succ_lt_succ below))
        (connects.proportional sized initial room) i j

theorem routeAll_proportional_pair :
    Proportional (routeAll
      (⟨{ idlePair with peer := ![idlePeer 2 0 0, idlePeer 1 0 0] }, none⟩ : Upstream 2 0)
      [3, 4]).primary.peer :=
  routeAll_proportional _ [3, 4] rfl ⟨by decide, by decide, by decide⟩ (by decide)
    (by decide) (by
      intro k below
      have small : k = 0 ∨ k = 1 := by
        have : k < 2 := below
        omega
      rcases small with rfl | rfl
      · exact ⟨by decide, by decide⟩
      · exact ⟨by decide, by decide⟩)

end AutoBurst.Nginx
