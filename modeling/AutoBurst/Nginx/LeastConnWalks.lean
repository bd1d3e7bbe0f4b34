/-
What the two walks of the least_conn balancer compute.

The first walk stops at the first eligible peer of least (conns + 1) / weight
and remembers whether a later eligible peer has the same conns / weight. The
second walk runs over exactly the eligible peers from there on with that same
conns / weight, and ends at the one whose current weight leads.
-/

import AutoBurst.Nginx.LeastConn
import Mathlib.Algebra.BigOperators.Fin
import Mathlib.Algebra.Order.Field.Basic
import Mathlib.Algebra.Order.Field.Rat
import Mathlib.Data.Rat.Cast.Order
import Mathlib.Tactic.Linarith
import Mathlib.Tactic.Positivity

namespace AutoBurst.Nginx

open CountedLoop

variable {n : Nat} {now : Int} {tried : List Nat} {peer : Fin n → RrPeer}

/-- Not tried, not down, not failed out, below its connection limit. -/
def eligible (now : Int) (tried : List Nat) (peer : Fin n → RrPeer) (i : Fin n) : Bool :=
  !triedBit tried i && !(peer i).down && !(peer i).failedOut now && !(peer i).full

theorem scanStep_eq (scan : Scan n) (i : Fin n) :
    scanStep now tried peer scan i =
      if eligible now tried peer i then
        match scan.best with
        | none => { best := some i, many := false }
        | some best =>
            if lessLoaded (peer i) (peer best) then { best := some i, many := false }
            else if sameConns (peer i) (peer best) then { scan with many := true }
            else scan
      else scan := by
  unfold scanStep eligible
  cases triedBit tried i <;> cases (peer i).down <;> cases (peer i).failedOut now <;>
    cases (peer i).full <;> rfl

theorem tieStep_eq (pass : TiePass n) (i : Fin n) :
    tieStep now tried pass i =
      if eligible now tried pass.tally.peer i &&
          sameConns (pass.tally.peer i) (pass.tally.peer pass.best) then
        let tally := pass.tally.take i
        if (tally.peer i).currentWeight > (tally.peer pass.best).currentWeight then
          { tally := tally, best := i }
        else { tally := tally, best := pass.best }
      else pass := by
  unfold tieStep eligible
  cases triedBit tried i <;> cases (pass.tally.peer i).down <;>
    cases (pass.tally.peer i).failedOut now <;> cases (pass.tally.peer i).full <;>
    cases sameConns (pass.tally.peer i) (pass.tally.peer pass.best) <;> rfl

/-! ### The comparisons as ratios -/

structure Sized (peer : Fin n → RrPeer) : Prop where
  positive : ∀ i, 1 ≤ (peer i).weight
  noWrap : ∀ i j, (((peer i).conns : Int) + 1) * (peer j).weight < 2 ^ 64

def RrPeer.load (peer : RrPeer) : Rat := (peer.conns + 1) / peer.weight

def RrPeer.ratio (peer : RrPeer) : Rat := peer.conns / peer.weight

private theorem uintOfInt_eq {weight : Int} (positive : 1 ≤ weight) (small : weight < 2 ^ 64) :
    (uintOfInt weight : Int) = weight := by
  unfold uintOfInt
  omega

private theorem Sized.weight_lt (sized : Sized peer) (i : Fin n) :
    (peer i).weight < 2 ^ 64 := by
  have bound := sized.noWrap i i
  have positive := sized.positive i
  nlinarith [Int.natCast_nonneg (peer i).conns]

private theorem Sized.product (sized : Sized peer) (i j : Fin n) :
    (uintWrap (uintWrap ((peer i).conns + 1) * uintOfInt (peer j).weight) : Int) =
      ((peer i).conns + 1) * (peer j).weight := by
  have bound := sized.noWrap i j
  have positive := sized.positive j
  have converted := uintOfInt_eq positive (sized.weight_lt j)
  have room : (((peer i).conns : Int) + 1) < 2 ^ 64 := by
    nlinarith [Int.natCast_nonneg (peer i).conns]
  have inner : uintWrap ((peer i).conns + 1) = (peer i).conns + 1 := by
    unfold uintWrap
    omega
  rw [inner]
  have whole : ((((peer i).conns + 1) * uintOfInt (peer j).weight : Nat) : Int) =
      ((peer i).conns + 1) * (peer j).weight := by
    push_cast
    rw [converted]
  unfold uintWrap
  omega

private theorem Sized.connProduct (sized : Sized peer) (i j : Fin n) :
    (uintWrap ((peer i).conns * uintOfInt (peer j).weight) : Int) =
      (peer i).conns * (peer j).weight := by
  have bound := sized.noWrap i j
  have positive := sized.positive j
  have converted := uintOfInt_eq positive (sized.weight_lt j)
  have whole : (((peer i).conns * uintOfInt (peer j).weight : Nat) : Int) =
      (peer i).conns * (peer j).weight := by
    push_cast
    rw [converted]
  have smaller : ((peer i).conns : Int) * (peer j).weight < 2 ^ 64 := by linarith
  unfold uintWrap
  omega

private theorem Sized.weight_pos (sized : Sized peer) (i : Fin n) :
    (0 : Rat) < (peer i).weight := by
  have positive := sized.positive i
  exact_mod_cast positive

theorem Sized.load_lt_iff (sized : Sized peer) (i j : Fin n) :
    (peer i).load < (peer j).load ↔
      (((peer i).conns : Int) + 1) * (peer j).weight <
        ((peer j).conns + 1) * (peer i).weight := by
  unfold RrPeer.load
  rw [div_lt_div_iff₀ (sized.weight_pos i) (sized.weight_pos j)]
  exact_mod_cast Iff.rfl

theorem Sized.load_le_iff (sized : Sized peer) (i j : Fin n) :
    (peer i).load ≤ (peer j).load ↔
      (((peer i).conns : Int) + 1) * (peer j).weight ≤
        ((peer j).conns + 1) * (peer i).weight := by
  rw [← not_lt, sized.load_lt_iff j i, not_lt]

theorem Sized.ratio_eq_iff (sized : Sized peer) (i j : Fin n) :
    (peer i).ratio = (peer j).ratio ↔
      ((peer i).conns : Int) * (peer j).weight = (peer j).conns * (peer i).weight := by
  unfold RrPeer.ratio
  rw [div_eq_div_iff (sized.weight_pos i).ne' (sized.weight_pos j).ne']
  exact_mod_cast Iff.rfl

theorem Sized.ratio_lt_load_iff (sized : Sized peer) (i j : Fin n) :
    (peer i).ratio < (peer j).load ↔
      ((peer i).conns : Int) * (peer j).weight <
        ((peer j).conns + 1) * (peer i).weight := by
  unfold RrPeer.ratio RrPeer.load
  rw [div_lt_div_iff₀ (sized.weight_pos i) (sized.weight_pos j)]
  exact_mod_cast Iff.rfl

theorem Sized.ratio_lt_load (sized : Sized peer) (i : Fin n) :
    (peer i).ratio < (peer i).load := by
  rw [sized.ratio_lt_load_iff]
  have positive := sized.positive i
  linarith

theorem Sized.lessLoaded_iff (sized : Sized peer) (i j : Fin n) :
    lessLoaded (peer i) (peer j) = true ↔ (peer i).load < (peer j).load := by
  rw [sized.load_lt_iff, ← sized.product i j, ← sized.product j i]
  unfold lessLoaded
  rw [decide_eq_true_eq]
  exact_mod_cast Iff.rfl

theorem Sized.sameConns_iff (sized : Sized peer) (i j : Fin n) :
    sameConns (peer i) (peer j) = true ↔ (peer i).ratio = (peer j).ratio := by
  rw [sized.ratio_eq_iff, ← sized.connProduct i j, ← sized.connProduct j i]
  unfold sameConns
  rw [beq_iff_eq]
  exact_mod_cast Iff.rfl

/-! ### The first walk -/

structure FirstLeast (now : Int) (tried : List Nat) (peer : Fin n → RrPeer)
    (stop : Nat) (best : Fin n) : Prop where
  below : best.val < stop
  isEligible : eligible now tried peer best = true
  before : ∀ i, i < best → eligible now tried peer i = true →
    (peer best).load < (peer i).load
  after : ∀ i, best < i → i.val < stop → eligible now tried peer i = true →
    (peer best).load ≤ (peer i).load

/-- A later eligible peer below `stop` has the conns / weight of `best`. -/
def Rival (now : Int) (tried : List Nat) (peer : Fin n → RrPeer) (stop : Nat)
    (best : Fin n) : Prop :=
  ∃ i, best < i ∧ i.val < stop ∧ eligible now tried peer i = true ∧
    (peer i).ratio = (peer best).ratio

def ScanAt (now : Int) (tried : List Nat) (peer : Fin n → RrPeer) (stop : Nat)
    (scan : Scan n) : Prop :=
  match scan.best with
  | none => ∀ i : Fin n, i.val < stop → eligible now tried peer i = false
  | some best => FirstLeast now tried peer stop best ∧
      (scan.many = true ↔ Rival now tried peer stop best)

private theorem FirstLeast.least {stop : Nat} {best : Fin n}
    (least : FirstLeast now tried peer stop best) {i : Fin n} (below : i.val < stop)
    (isEligible : eligible now tried peer i = true) : (peer best).load ≤ (peer i).load := by
  rcases lt_trichotomy i best with earlier | same | later
  · exact (least.before i earlier isEligible).le
  · rw [same]
  · exact least.after i later below isEligible

/-- Passing one more position that does not become the new choice. -/
private theorem FirstLeast.extend {best i : Fin n}
    (least : FirstLeast now tried peer i best)
    (heavier : eligible now tried peer i = true → (peer best).load ≤ (peer i).load) :
    FirstLeast now tried peer (i + 1) best where
  below := Nat.lt_succ_of_lt least.below
  isEligible := least.isEligible
  before := least.before
  after := by
    intro j later below isEligible
    rcases Nat.lt_succ_iff_lt_or_eq.mp below with earlier | atEnd
    · exact least.after j later earlier isEligible
    · have same : j = i := Fin.ext atEnd
      subst same
      exact heavier isEligible

private theorem rival_succ {best i : Fin n} (below : best < i) :
    Rival now tried peer (i + 1) best ↔
      Rival now tried peer i best ∨
        (eligible now tried peer i = true ∧ (peer i).ratio = (peer best).ratio) := by
  constructor
  · rintro ⟨j, later, within, isEligible, same⟩
    rcases Nat.lt_succ_iff_lt_or_eq.mp within with earlier | atEnd
    · exact Or.inl ⟨j, later, earlier, isEligible, same⟩
    · have jEq : j = i := Fin.ext atEnd
      subst jEq
      exact Or.inr ⟨isEligible, same⟩
  · rintro (⟨j, later, within, isEligible, same⟩ | ⟨isEligible, same⟩)
    · exact ⟨j, later, Nat.lt_succ_of_lt within, isEligible, same⟩
    · exact ⟨i, below, Nat.lt_succ_self _, isEligible, same⟩

/-- The position under the cursor becomes the choice; no later one is known. -/
private theorem scanAt_replace {i : Fin n} (isEligible : eligible now tried peer i = true)
    (before : ∀ j, j < i → eligible now tried peer j = true →
      (peer i).load < (peer j).load) :
    ScanAt now tried peer (i + 1) { best := some i, many := false } := by
  refine ⟨⟨Nat.lt_succ_self _, isEligible, before, ?_⟩, ?_⟩
  · intro j later below _isEligible
    have := Fin.lt_def.mp later
    omega
  · constructor
    · intro impossible
      cases impossible
    · rintro ⟨j, later, below, _⟩
      have := Fin.lt_def.mp later
      omega

theorem scanStep_scanAt (sized : Sized peer) (i : Fin n) (scan : Scan n)
    (reached : ScanAt now tried peer i scan) :
    ScanAt now tried peer (i + 1) (scanStep now tried peer scan i) := by
  rw [scanStep_eq]
  rcases scan with ⟨best, many⟩
  cases best with
  | none =>
      by_cases isEligible : eligible now tried peer i = true
      · rw [if_pos isEligible]
        apply scanAt_replace isEligible
        intro j earlier jEligible
        rw [reached j earlier] at jEligible
        cases jEligible
      · rw [if_neg isEligible]
        intro j below
        rcases Nat.lt_succ_iff_lt_or_eq.mp below with earlier | atEnd
        · exact reached j earlier
        · have same : j = i := Fin.ext atEnd
          subst same
          exact Bool.eq_false_iff.mpr isEligible
  | some best =>
      obtain ⟨least, manyIff⟩ := reached
      have below : best < i := least.below
      by_cases isEligible : eligible now tried peer i = true
      · rw [if_pos isEligible]
        by_cases lighter : lessLoaded (peer i) (peer best) = true
        · simp only [if_pos lighter]
          have lower := (sized.lessLoaded_iff i best).mp lighter
          apply scanAt_replace isEligible
          intro j earlier jEligible
          exact lower.trans_le (least.least earlier jEligible)
        · simp only [if_neg lighter]
          have kept : FirstLeast now tried peer (i + 1) best := least.extend (fun _ =>
            not_lt.mp (fun lower => lighter ((sized.lessLoaded_iff i best).mpr lower)))
          by_cases same : sameConns (peer i) (peer best) = true
          · rw [if_pos same]
            refine ⟨kept, iff_of_true rfl ?_⟩
            exact (rival_succ below).mpr
              (Or.inr ⟨isEligible, (sized.sameConns_iff i best).mp same⟩)
          · rw [if_neg same]
            refine ⟨kept, manyIff.trans ?_⟩
            rw [rival_succ below, ← sized.sameConns_iff i best]
            exact (or_iff_left (fun both => same both.2)).symm
      · rw [if_neg isEligible]
        refine ⟨least.extend (fun yes => absurd yes isEligible), manyIff.trans ?_⟩
        rw [rival_succ below]
        exact (or_iff_left (fun both => isEligible both.1)).symm

theorem scanPeers_scanAt (sized : Sized peer) :
    ScanAt now tried peer n (scanPeers now tried peer) :=
  loopFrom_invariant (scanStep now tried peer) (ScanAt now tried peer)
    (scanStep_scanAt sized) _ (Nat.zero_le n)
    (fun _i below => absurd below (Nat.not_lt_zero _))

def FoundAt (now : Int) (tried : List Nat) (peer : Fin n → RrPeer) (stop : Nat)
    (scan : Scan n) : Prop :=
  match scan.best with
  | none => ∀ i : Fin n, i.val < stop → eligible now tried peer i = false
  | some best => eligible now tried peer best = true

private theorem scanStep_foundAt (i : Fin n) (scan : Scan n)
    (reached : FoundAt now tried peer i scan) :
    FoundAt now tried peer (i + 1) (scanStep now tried peer scan i) := by
  rw [scanStep_eq]
  rcases scan with ⟨best, many⟩
  by_cases isEligible : eligible now tried peer i = true
  · rw [if_pos isEligible]
    cases best with
    | none => exact isEligible
    | some best =>
        dsimp only
        split
        · exact isEligible
        · split <;> exact reached
  · rw [if_neg isEligible]
    cases best with
    | none =>
        intro j below
        rcases Nat.lt_succ_iff_lt_or_eq.mp below with earlier | atEnd
        · exact reached j earlier
        · have same : j = i := Fin.ext atEnd
          subst same
          exact Bool.eq_false_iff.mpr isEligible
    | some best => exact reached

theorem scanPeers_foundAt : FoundAt now tried peer n (scanPeers now tried peer) :=
  loopFrom_invariant (scanStep now tried peer) (FoundAt now tried peer)
    scanStep_foundAt _ (Nat.zero_le n) (fun _i below => absurd below (Nat.not_lt_zero _))

/-! ### The second walk -/

/-- The positions a walk from `first` has taken before `stop`, and what it did
to them. Only at the very start is the choice not among them. -/
structure TieAt (now : Int) (tried : List Nat) (peer : Fin n → RrPeer) (first : Fin n)
    (stop : Nat) (pass : TiePass n) : Prop where
  nodup : pass.tally.ran.Nodup
  within : ∀ i ∈ pass.tally.ran,
    first ≤ i ∧ i.val < stop ∧ eligible now tried peer i = true
  peers : ∀ i, pass.tally.peer i = if i ∈ pass.tally.ran then (peer i).gain else peer i
  total : pass.tally.total =
    (pass.tally.ran.map (fun i => (peer i).effectiveWeight)).sum
  chosen : pass.best ∈ pass.tally.ran ∨ (first.val = stop ∧ pass.best = first)
  leads : ∀ i ∈ pass.tally.ran,
    (peer i).gain.currentWeight ≤ (pass.tally.peer pass.best).currentWeight

section Second

variable {first : Fin n} {stop : Nat} {pass : TiePass n}

theorem TieAt.eligible_eq (reached : TieAt now tried peer first stop pass) (i : Fin n) :
    eligible now tried pass.tally.peer i = eligible now tried peer i := by
  unfold eligible
  rw [reached.peers i]
  split <;> rfl

theorem TieAt.sameConns_eq (reached : TieAt now tried peer first stop pass) (i j : Fin n) :
    sameConns (pass.tally.peer i) (pass.tally.peer j) = sameConns (peer i) (peer j) := by
  unfold sameConns
  rw [reached.peers i, reached.peers j]
  split <;> split <;> rfl

theorem sameConns_self (peer : RrPeer) : sameConns peer peer = true := by
  unfold sameConns
  exact beq_self_eq_true _

private theorem TieAt.skip {i : Fin n} (reached : TieAt now tried peer first i pass)
    (notFirst : first ≠ i) : TieAt now tried peer first (i + 1) pass where
  nodup := reached.nodup
  within := by
    intro j member
    obtain ⟨after, below, isEligible⟩ := reached.within j member
    exact ⟨after, Nat.lt_succ_of_lt below, isEligible⟩
  peers := reached.peers
  total := reached.total
  chosen := by
    rcases reached.chosen with member | ⟨atStart, _⟩
    · exact Or.inl member
    · exact absurd (Fin.ext atStart) notFirst
  leads := reached.leads

private theorem TieAt.fresh {i : Fin n} (reached : TieAt now tried peer first i pass) :
    i ∉ pass.tally.ran := by
  intro member
  exact Nat.lt_irrefl _ (reached.within i member).2.1

private theorem TieAt.take_peer {i : Fin n} (reached : TieAt now tried peer first i pass)
    (j : Fin n) :
    (pass.tally.take i).peer j =
      if j ∈ (pass.tally.take i).ran then (peer j).gain else peer j := by
  have untouched : pass.tally.peer i = peer i := by
    rw [reached.peers i, if_neg reached.fresh]
  have unfolded : (pass.tally.take i).peer j =
      Function.update pass.tally.peer i (pass.tally.peer i).gain j := rfl
  have ranEq : (pass.tally.take i).ran = pass.tally.ran ++ [i] := rfl
  rw [unfolded, ranEq]
  by_cases same : j = i
  · subst same
    rw [Function.update_self, untouched, if_pos (by simp)]
  · rw [Function.update_of_ne same, reached.peers j]
    simp [same]

/-- Taking one more position, with the choice that leads afterwards. -/
private theorem TieAt.takeWith {i : Fin n} (reached : TieAt now tried peer first i pass)
    (later : first ≤ i) (isEligible : eligible now tried peer i = true) {best : Fin n}
    (member : best ∈ pass.tally.ran ++ [i])
    (overOld : pass.best ∈ pass.tally.ran →
      ((pass.tally.take i).peer pass.best).currentWeight ≤
        ((pass.tally.take i).peer best).currentWeight)
    (overNew : ((pass.tally.take i).peer i).currentWeight ≤
      ((pass.tally.take i).peer best).currentWeight) :
    TieAt now tried peer first (i + 1) { tally := pass.tally.take i, best := best } where
  nodup := by
    change (pass.tally.ran ++ [i]).Nodup
    rw [List.nodup_append]
    refine ⟨reached.nodup, List.nodup_singleton i, ?_⟩
    intro j old k new same
    rw [List.mem_singleton.mp new] at same
    exact reached.fresh (same ▸ old)
  within := by
    intro j taken
    rcases List.mem_append.mp taken with old | new
    · obtain ⟨after, below, jEligible⟩ := reached.within j old
      exact ⟨after, Nat.lt_succ_of_lt below, jEligible⟩
    · rw [List.mem_singleton.mp new]
      exact ⟨later, Nat.lt_succ_self _, isEligible⟩
  peers := reached.take_peer
  total := by
    change pass.tally.total + (pass.tally.peer i).effectiveWeight =
      ((pass.tally.ran ++ [i]).map (fun j => (peer j).effectiveWeight)).sum
    rw [reached.total, reached.peers i, if_neg reached.fresh]
    simp
  chosen := Or.inl member
  leads := by
    intro j taken
    change (peer j).gain.currentWeight ≤ ((pass.tally.take i).peer best).currentWeight
    rcases List.mem_append.mp taken with old | new
    · rcases reached.chosen with bestOld | ⟨atStart, _⟩
      · have before := reached.leads j old
        have kept : (pass.tally.take i).peer pass.best = pass.tally.peer pass.best := by
          rw [reached.take_peer, reached.peers, if_pos bestOld]
          exact if_pos (List.mem_append_left _ bestOld)
        rw [← kept] at before
        exact before.trans (overOld bestOld)
      · have none := (reached.within j old)
        have := Fin.le_def.mp none.1
        omega
    · have same := List.mem_singleton.mp new
      subst same
      have gained : (pass.tally.take j).peer j = (peer j).gain := by
        rw [reached.take_peer]
        exact if_pos (List.mem_append_right _ (List.mem_singleton_self j))
      rw [← gained]
      exact overNew

theorem tieStep_tieAt (firstEligible : eligible now tried peer first = true) (i : Fin n)
    (later : first ≤ i) (reached : TieAt now tried peer first i pass) :
    TieAt now tried peer first (i + 1) (tieStep now tried pass i) := by
  rw [tieStep_eq]
  by_cases takes : (eligible now tried pass.tally.peer i &&
      sameConns (pass.tally.peer i) (pass.tally.peer pass.best)) = true
  · rw [if_pos takes]
    have isEligible : eligible now tried peer i = true := by
      rw [← reached.eligible_eq i]
      exact (Bool.and_eq_true_iff.mp takes).1
    dsimp only
    split
    · rename_i above
      exact reached.takeWith later isEligible (by simp) (fun _ => le_of_lt above) le_rfl
    · rename_i notAbove
      apply reached.takeWith later isEligible
      · rcases reached.chosen with member | ⟨atStart, same⟩
        · exact List.mem_append_left _ member
        · have iEq : i = first := Fin.ext atStart.symm
          rw [same, iEq]
          exact List.mem_append_right _ (List.mem_singleton_self first)
      · intro _
        exact le_rfl
      · exact not_lt.mp notAbove
  · rw [if_neg takes]
    apply reached.skip
    intro same
    subst same
    rcases reached.chosen with member | ⟨_, best⟩
    · have := (reached.within pass.best member).2.1
      have := Fin.le_def.mp (reached.within pass.best member).1
      omega
    · apply takes
      rw [reached.eligible_eq, firstEligible, best, sameConns_self]
      rfl

end Second

/-- The invariant rule for a walk that starts at `first`. -/
theorem tiePass_invariant {first : Fin n} (invariant : Nat → TiePass n → Prop)
    (entry : invariant first { tally := .start peer, best := first })
    (carried : ∀ (i : Fin n) (pass : TiePass n), first ≤ i → invariant i pass →
      invariant (i + 1) (tieStep now tried pass i)) :
    invariant n (tiePass now tried peer first) := by
  have always := loopFrom_invariant (tieStep now tried)
    (fun position pass => first.val ≤ position ∧ invariant position pass)
    (fun i pass reached => ⟨Nat.le_succ_of_le reached.1,
      carried i pass (Fin.le_def.mpr reached.1) reached.2⟩)
    { tally := .start peer, best := first } (Nat.le_of_lt first.isLt)
    ⟨Nat.le_refl _, entry⟩
  exact always.2

theorem tieAt_start {first : Fin n} :
    TieAt now tried peer first first { tally := .start peer, best := first } where
  nodup := List.nodup_nil
  within := by
    intro i member
    cases member
  peers := by
    intro i
    rfl
  total := rfl
  chosen := Or.inr ⟨rfl, rfl⟩
  leads := by
    intro i member
    cases member

theorem tiePass_tieAt {first : Fin n} (firstEligible : eligible now tried peer first = true) :
    TieAt now tried peer first n (tiePass now tried peer first) :=
  tiePass_invariant (TieAt now tried peer first) tieAt_start
    (fun i _pass later reached => tieStep_tieAt firstEligible i later reached)

def TiesAt (now : Int) (tried : List Nat) (peer : Fin n → RrPeer) (first : Fin n)
    (stop : Nat) (pass : TiePass n) : Prop :=
  ∀ i, i ∈ pass.tally.ran ↔ first ≤ i ∧ i.val < stop ∧
    eligible now tried peer i = true ∧ (peer i).ratio = (peer first).ratio

private theorem tieStep_tiesAt (sized : Sized peer) {first : Fin n} {pass : TiePass n}
    (i : Fin n) (later : first ≤ i) (reached : TieAt now tried peer first i pass)
    (ties : TiesAt now tried peer first i pass) :
    TiesAt now tried peer first (i + 1) (tieStep now tried pass i) := by
  have bestRatio : (peer pass.best).ratio = (peer first).ratio := by
    rcases reached.chosen with member | ⟨_, same⟩
    · exact ((ties pass.best).mp member).2.2.2
    · rw [same]
  have takesIff : (eligible now tried pass.tally.peer i &&
      sameConns (pass.tally.peer i) (pass.tally.peer pass.best)) = true ↔
      eligible now tried peer i = true ∧ (peer i).ratio = (peer first).ratio := by
    rw [Bool.and_eq_true, reached.eligible_eq, reached.sameConns_eq,
      sized.sameConns_iff, bestRatio]
  intro j
  have split : (first ≤ j ∧ j.val < i.val + 1 ∧ eligible now tried peer j = true ∧
        (peer j).ratio = (peer first).ratio) ↔
      j ∈ pass.tally.ran ∨ (j = i ∧ eligible now tried peer i = true ∧
        (peer i).ratio = (peer first).ratio) := by
    rw [ties j]
    constructor
    · rintro ⟨after, below, isEligible, same⟩
      rcases Nat.lt_succ_iff_lt_or_eq.mp below with earlier | atEnd
      · exact Or.inl ⟨after, earlier, isEligible, same⟩
      · have jEq : j = i := Fin.ext atEnd
        subst jEq
        exact Or.inr ⟨rfl, isEligible, same⟩
    · rintro (⟨after, below, isEligible, same⟩ | ⟨rfl, isEligible, same⟩)
      · exact ⟨after, Nat.lt_succ_of_lt below, isEligible, same⟩
      · exact ⟨later, Nat.lt_succ_self _, isEligible, same⟩
  rw [split, ← takesIff, tieStep_eq]
  by_cases takes : (eligible now tried pass.tally.peer i &&
      sameConns (pass.tally.peer i) (pass.tally.peer pass.best)) = true
  · rw [if_pos takes]
    have ranEq : (pass.tally.take i).ran = pass.tally.ran ++ [i] := rfl
    dsimp only
    split <;> simp only [ranEq, List.mem_append, List.mem_singleton, takes, and_true]
  · rw [if_neg takes]
    exact (or_iff_left (fun both => takes both.2)).symm

/-- The second walk runs over the eligible peers from `first` on that share
its conns / weight, and over no others. -/
theorem mem_tiePass_ran_iff (sized : Sized peer) {first : Fin n}
    (firstEligible : eligible now tried peer first = true) (i : Fin n) :
    i ∈ (tiePass now tried peer first).tally.ran ↔
      first ≤ i ∧ eligible now tried peer i = true ∧
        (peer i).ratio = (peer first).ratio := by
  have walked : TieAt now tried peer first n (tiePass now tried peer first) ∧
      TiesAt now tried peer first n (tiePass now tried peer first) := tiePass_invariant
    (fun stop pass => TieAt now tried peer first stop pass ∧
      TiesAt now tried peer first stop pass)
    ⟨tieAt_start, by
      intro j
      constructor
      · intro impossible
        cases impossible
      · rintro ⟨after, below, _⟩
        have := Fin.le_def.mp after
        omega⟩
    (fun j _pass later reached => ⟨tieStep_tieAt firstEligible j later reached.1,
      tieStep_tiesAt sized j later reached.1 reached.2⟩)
  rw [walked.2 i]
  constructor
  · rintro ⟨after, _below, both⟩
    exact ⟨after, both⟩
  · rintro ⟨after, both⟩
    exact ⟨after, i.isLt, both⟩

end AutoBurst.Nginx
