/-
The arrival rates of the main loop over whole runs of counter readings, any of
which may fail to parse.

A failed reading returns the module-level count, which nothing in the main
loop ever moves from zero, and not the loop's own previous count.
-/

import AutoBurst.Controller.LoadBalancer
import Mathlib.Algebra.Order.Field.Basic
import Mathlib.Algebra.Order.Field.Rat
import Mathlib.Tactic.Linarith

namespace AutoBurst.Controller

structure Reading where
  counter : Nat
  parsed : Bool
  duration : Rat
deriving DecidableEq, Repr

def Reading.result (reading : Reading) : Option Int :=
  if reading.parsed then some reading.counter else none

def arrRates (lb : LoadBalancer) : Int → List Reading → List Rat
  | _prevReqs, [] => []
  | prevReqs, reading :: rest =>
      arrivalRate lb prevReqs reading.result reading.duration ::
        arrRates lb (getNumberOfReqs lb reading.result) rest

def countedTotal (lb : LoadBalancer) : Int → List Reading → Int
  | _prevReqs, [] => 0
  | prevReqs, reading :: rest =>
      countedReqs lb prevReqs reading.result +
        countedTotal lb (getNumberOfReqs lb reading.result) rest

def lastCounter (first : Reading) (rest : List Reading) : Nat :=
  (rest.getLast?.getD first).counter

/-- Each status read is itself a request, so every later counter is larger. -/
def Increasing : Reading → List Reading → Prop
  | _, [] => True
  | first, reading :: rest => first.counter < reading.counter ∧ Increasing reading rest

instance decideIncreasing : (first : Reading) → (rest : List Reading) →
    Decidable (Increasing first rest)
  | _, [] => .isTrue trivial
  | first, reading :: rest =>
      have := decideIncreasing reading rest
      inferInstanceAs (Decidable (first.counter < reading.counter ∧ _))

def RatesSound (lb : LoadBalancer) (first : Reading) (rest : List Reading) : Prop :=
  (∀ rate ∈ arrRates lb (getNumberOfReqs lb first.result) rest, 0 ≤ rate) ∧
    countedTotal lb (getNumberOfReqs lb first.result) rest ≤
      lastCounter first rest - first.counter

/-! ### Parsed readings -/

section Runs

variable {lb : LoadBalancer}

theorem lastCounter_cons (first reading : Reading) (rest : List Reading) :
    lastCounter first (reading :: rest) = lastCounter reading rest := by
  unfold lastCounter
  cases rest with
  | nil => rfl
  | cons next tail =>
      rw [List.getLast?_cons_cons, List.getLast?_cons]
      rfl

private theorem result_of_parsed (lb : LoadBalancer) {reading : Reading}
    (parsed : reading.parsed = true) :
    getNumberOfReqs lb reading.result = reading.counter := by
  unfold Reading.result
  rw [if_pos parsed]
  rfl

private theorem result_of_failed (fresh : lb.prevReqs = 0) {reading : Reading}
    (failed : reading.parsed = false) : getNumberOfReqs lb reading.result = 0 := by
  unfold Reading.result
  rw [if_neg (by rw [failed]; exact Bool.false_ne_true)]
  exact fresh

private theorem result_nonneg (fresh : lb.prevReqs = 0) (reading : Reading) :
    0 ≤ getNumberOfReqs lb reading.result := by
  cases parsed : reading.parsed with
  | true =>
      rw [result_of_parsed lb parsed]
      exact Int.natCast_nonneg _
  | false => rw [result_of_failed fresh parsed]

/-- While readings parse, counting telescopes: one request less per reading. -/
theorem countedTotal_parsed (prevReqs : Int) (first : Reading) (rest : List Reading)
    (nonempty : rest ≠ []) (parsed : ∀ reading ∈ rest, reading.parsed = true) :
    countedTotal lb prevReqs rest = lastCounter first rest - prevReqs - rest.length := by
  induction rest generalizing prevReqs first with
  | nil => exact absurd rfl nonempty
  | cons reading rest ih =>
      have now := result_of_parsed lb (parsed reading List.mem_cons_self)
      simp only [countedTotal, countedReqs, now, lastCounter_cons, List.length_cons]
      by_cases finished : rest = []
      · subst finished
        simp [countedTotal, lastCounter]
      · rw [ih reading.counter reading finished
          (fun later member => parsed later (List.mem_cons_of_mem _ member))]
        omega

/-- Parsed readings of an increasing counter never give a negative rate. -/
theorem arrRates_nonneg_of_parsed (lb : LoadBalancer) (prevReqs : Int) (first : Reading)
    (rest : List Reading) (below : prevReqs ≤ first.counter) (increasing : Increasing first rest)
    (durations : ∀ reading ∈ rest, 0 < reading.duration)
    (parsed : ∀ reading ∈ rest, reading.parsed = true) :
    ∀ rate ∈ arrRates lb prevReqs rest, 0 ≤ rate := by
  induction rest generalizing prevReqs first with
  | nil =>
      intro rate member
      cases member
  | cons reading rest ih =>
      obtain ⟨larger, later⟩ := increasing
      have now := result_of_parsed lb (parsed reading List.mem_cons_self)
      intro rate member
      rcases List.mem_cons.mp member with atHead | inTail
      · rw [atHead]
        unfold arrivalRate countedReqs
        rw [now]
        apply div_nonneg
        · have moved : (0 : Int) ≤ reading.counter - prevReqs - 1 := by omega
          exact_mod_cast moved
        · exact (durations reading List.mem_cons_self).le
      · rw [now] at inTail
        exact ih reading.counter reading (le_refl _) later
          (fun next inRest => durations next (List.mem_cons_of_mem _ inRest))
          (fun next inRest => parsed next (List.mem_cons_of_mem _ inRest)) rate inTail

/-- A reading that fails in an iteration makes that iteration's rate negative. -/
theorem arrRates_negative_of_failed (fresh : lb.prevReqs = 0) (prevReqs : Int)
    (rest : List Reading) (nonneg : 0 ≤ prevReqs)
    (durations : ∀ reading ∈ rest, 0 < reading.duration)
    (failed : ∃ reading ∈ rest, reading.parsed = false) :
    ∃ rate ∈ arrRates lb prevReqs rest, rate < 0 := by
  induction rest generalizing prevReqs with
  | nil =>
      obtain ⟨reading, member, _⟩ := failed
      cases member
  | cons reading rest ih =>
      cases parsed : reading.parsed with
      | false =>
          refine ⟨_, List.mem_cons_self, ?_⟩
          unfold arrivalRate countedReqs
          rw [result_of_failed fresh parsed]
          apply div_neg_of_neg_of_pos
          · have lost : (0 : Int) - prevReqs - 1 < 0 := by omega
            exact_mod_cast lost
          · exact durations reading List.mem_cons_self
      | true =>
          obtain ⟨bad, member, badFailed⟩ := failed
          have inRest : bad ∈ rest := by
            rcases List.mem_cons.mp member with same | later
            · rw [same, parsed] at badFailed
              cases badFailed
            · exact later
          obtain ⟨rate, inTail, negative⟩ := ih (getNumberOfReqs lb reading.result)
            (result_nonneg fresh reading)
            (fun next member => durations next (List.mem_cons_of_mem _ member))
            ⟨bad, inRest, badFailed⟩
          exact ⟨rate, List.mem_cons_of_mem _ inTail, negative⟩

end Runs

/-! ### When the rates are sound -/

/-- Every reading of an iteration parses, and so does the reading before the
loop, unless no iteration follows or the counter was then no larger than the
number of iterations. -/
def ReadsEnough (first : Reading) (rest : List Reading) : Prop :=
  (∀ reading ∈ rest, reading.parsed = true) ∧
    (first.parsed = true ∨ rest = [] ∨ first.counter ≤ rest.length)

/-- Over any run of increasing counter readings the rates are sound if and only
if the readings suffice. -/
theorem ratesSound_iff_readsEnough (lb : LoadBalancer) (first : Reading)
    (rest : List Reading) (fresh : lb.prevReqs = 0) (increasing : Increasing first rest)
    (durations : ∀ reading ∈ rest, 0 < reading.duration) :
    RatesSound lb first rest ↔ ReadsEnough first rest := by
  by_cases parsed : ∀ reading ∈ rest, reading.parsed = true
  · have below : getNumberOfReqs lb first.result ≤ first.counter := by
      cases firstParsed : first.parsed with
      | true => rw [result_of_parsed lb firstParsed]
      | false =>
          rw [result_of_failed fresh firstParsed]
          exact Int.natCast_nonneg _
    have nonneg := arrRates_nonneg_of_parsed lb _ first rest below increasing durations
      parsed
    unfold RatesSound ReadsEnough
    rw [and_iff_right nonneg, and_iff_right parsed]
    by_cases finished : rest = []
    · subst finished
      simp [countedTotal, lastCounter]
    · rw [countedTotal_parsed _ first rest finished parsed]
      cases firstParsed : first.parsed with
      | true =>
          rw [result_of_parsed lb firstParsed]
          simp only [true_or, iff_true]
          omega
      | false =>
          rw [result_of_failed fresh firstParsed]
          simp only [Bool.false_eq_true, finished, false_or]
          omega
  · constructor
    · intro sound
      have failed : ∃ reading ∈ rest, reading.parsed = false := by
        by_contra none
        apply parsed
        intro reading member
        by_contra notParsed
        exact none ⟨reading, member, Bool.eq_false_iff.mpr notParsed⟩
      obtain ⟨rate, member, negative⟩ := arrRates_negative_of_failed fresh
        (getNumberOfReqs lb first.result) rest (result_nonneg fresh first) durations failed
      exact absurd (sound.1 rate member) (not_le.mpr negative)
    · intro enough
      exact absurd enough.1 parsed

def importedBalancer : LoadBalancer :=
  { prevReqs := 0
    prevIpWeight := []
    wikiConfigTemp := ⟨"least_conn", []⟩
    wikiConfigRemote := ⟨"least_conn", []⟩ }

/-- A counter that goes 10, 12, 15 with the middle reading lost: the rate falls
below zero, then all requests since the start are counted at once. -/
theorem arrRates_lost_reading :
    Increasing ⟨10, true, 0⟩ [⟨12, false, 1⟩, ⟨15, true, 1⟩] ∧
      arrRates importedBalancer (getNumberOfReqs importedBalancer (some 10))
        [⟨12, false, 1⟩, ⟨15, true, 1⟩] = [-11, 14] ∧
      ¬RatesSound importedBalancer ⟨10, true, 0⟩ [⟨12, false, 1⟩, ⟨15, true, 1⟩] := by
  have rates : arrRates importedBalancer (getNumberOfReqs importedBalancer (some 10))
      [⟨12, false, 1⟩, ⟨15, true, 1⟩] = [-11, 14] := by decide +kernel
  refine ⟨by decide, rates, ?_⟩
  intro sound
  have nonneg := sound.1 (-11) (by
    change -11 ∈ arrRates importedBalancer (getNumberOfReqs importedBalancer (some 10)) _
    rw [rates]
    exact List.mem_cons_self)
  exact absurd nonneg (by decide +kernel)

theorem ratesSound_iff_lost_reading :
    RatesSound importedBalancer ⟨10, true, 0⟩ [⟨12, false, 1⟩, ⟨15, true, 1⟩] ↔
      ReadsEnough ⟨10, true, 0⟩ [⟨12, false, 1⟩, ⟨15, true, 1⟩] :=
  ratesSound_iff_readsEnough importedBalancer _ _ rfl (by decide) (by decide +kernel)

end AutoBurst.Controller
