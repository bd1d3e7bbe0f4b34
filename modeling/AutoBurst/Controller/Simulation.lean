/-
Every step of the machine is a sequence of moves, and what else a step leaves
alone. The items of `curr_bur` are out of the list exactly while it is sorted.
-/

import AutoBurst.Controller.Moves

namespace AutoBurst.Controller

open Runs

variable {est : Estimator} {cfg : Config} {before after : State}

def State.startsFirstOnD (state : State) : Bool :=
  match state.main with
  | .scaleOnD od _b =>
      decide (0 < od) && state.fleet.currOnD.isEmpty && !state.fleet.onD.isEmpty
  | _ => false

def State.stopping (state : State) : Option Node :=
  match state.main with
  | .stopIssue i lenStopped => if i < lenStopped then state.fleet.stoppedInstances[i]? else none
  | _ => none

def State.risks (state : State) : Risk → Prop
  | .stop id => ∃ node, state.stopping = some node ∧ node.id = id
  | .firstOnD => state.startsFirstOnD = true
  | .beginSort => ∃ b, state.main = .sortStart b
  | .drainBur => ∃ b, state.main = .drainPick b

def MainPc.target : MainPc → Option Int
  | .scaleOnD _od b => some b
  | .blockOnD _i _stop b => some b
  | .scaleBur b => some b
  | .sortStart b => some b
  | .sorting b => some b
  | .drainPick b => some b
  | _ => none

def State.asks (state : State) (est : Estimator) (input : MainInput) (b : Int) : Prop :=
  ∃ total throughput next od, state.main = .estimate total throughput ∧
    est input state.estimator (state.call total throughput) = some (next, od, b)

/-- While the list is sorted its items are elsewhere, and only then. -/
structure State.SortHeld (state : State) : Prop where
  inside : state.main.isSorting = true → state.fleet.currBur = []
  outside : state.main.isSorting = false → state.fleet.sorting = []

/-! ### The main thread -/

/-- What a step of the main thread does: moves on the lists, the target handed
on or asked for, and nothing to what only the other threads write. -/
structure MainEffect (est : Estimator) (cfg : Config) (input : MainInput) (before after : State) :
    Prop where
  moves : Moves cfg before.risks before.fleet after.fleet
  sorting : after.main.isSorting = true → ∃ b, before.main = .sortStart b
  target : ∀ b, after.main.target = some b →
    before.main.target = some b ∨ before.asks est input b
  upstream : after.upstream = before.upstream
  shortTermThreadRunning : after.shortTermThreadRunning = before.shortTermThreadRunning
  short : after.short = before.short

section Stages

variable {input : MainInput} {state : State}

/-- A step that hands the target on. -/
private theorem MainEffect.keep {fleet : Fleet} (moves : Moves cfg state.risks state.fleet fleet)
    (main : MainPc) (unsorted : main.isSorting = false) (same : main.target = state.main.target) :
    MainEffect est cfg input state { state with fleet := fleet, main := main } :=
  { moves := moves
    sorting := fun sorting => absurd sorting (ne_true_of_eq_false unsorted)
    target := fun _b aims => .inl (same ▸ aims)
    upstream := rfl
    shortTermThreadRunning := rfl
    short := rfl }

/-- A step to a point of the loop without a target. -/
private theorem MainEffect.move {fleet : Fleet} (moves : Moves cfg state.risks state.fleet fleet)
    (main : MainPc) (plain : main.target = none) :
    MainEffect est cfg input state { state with fleet := fleet, main := main } := by
  refine ⟨moves, ?_, ?_, rfl, rfl, rfl⟩
  · intro sorting
    obtain ⟨b, there⟩ := MainPc.exists_of_isSorting sorting
    have here : main = .sorting b := there
    rw [here] at plain
    cases plain
  · intro b aims
    rw [plain] at aims
    cases aims

private theorem MainEffect.jump (main : MainPc) (plain : main.target = none) :
    MainEffect est cfg input state { state with main := main } :=
  MainEffect.move .refl main plain

private theorem drainCheck_effect (j left : Nat) :
    MainEffect est cfg input state (drainCheck input state j left) := by
  cases left with
  | zero => exact .jump _ rfl
  | succ left =>
      simp only [drainCheck]
      split
      · exact .jump _ rfl
      · split
        · exact .jump _ rfl
        · exact .jump _ rfl

private theorem drainMove_effect (j left : Nat) :
    MainEffect est cfg input state (drainMove state j left) := by
  unfold drainMove
  split
  · exact .jump _ rfl
  · rename_i fleet retired
    exact .move (.single (retire_move retired)) _ rfl

private theorem stopIssue_effect (i lenStopped : Nat)
    (here : state.main = .stopIssue i lenStopped) :
    MainEffect est cfg input state (stopIssue state i lenStopped) := by
  unfold stopIssue
  split
  · rename_i inRange
    split
    · exact .jump _ rfl
    · rename_i node found
      have stopping : state.stopping = some node := by
        simp only [State.stopping, here, if_pos inRange, found]
      have risk : state.risks (.stop node.id) := ⟨node, stopping, rfl⟩
      exact .move (.single (.stop (List.mem_of_getElem? found) risk)) _ rfl
  · exact .jump _ rfl

private theorem stopBlock_effect (i lenStopped : Nat) :
    MainEffect est cfg input state (stopBlock state i lenStopped) := by
  unfold stopBlock
  split
  · split
    · exact .jump _ rfl
    · rename_i node found
      exact .move (.single (.stopped (List.mem_of_getElem? found))) _ rfl
  · exact .jump _ rfl

private theorem repool_effect (left : Nat) :
    MainEffect est cfg input state (repool input state left) := by
  cases left with
  | zero => exact .jump _ rfl
  | succ left =>
      simp only [repool]
      split
      · exact .jump _ rfl
      · rename_i fleet repooled
        exact .move (.single (repool_move repooled)) _ rfl

private theorem measureRate_effect :
    MainEffect est cfg input state (measureRate cfg input state) := by
  unfold measureRate
  split
  · exact .jump _ rfl
  · split
    · exact ⟨.refl, nofun, nofun, rfl, rfl, rfl⟩
    · exact ⟨.refl, nofun, nofun, rfl, rfl, rfl⟩

private theorem creditTotal_effect (index : Nat) (total throughput : Rat) :
    MainEffect est cfg input state (creditTotal input state index total throughput) := by
  unfold creditTotal
  split
  · exact .jump _ rfl
  · rename_i fleet credit read
    exact .move (.single (readCreditAt_move read)) _ rfl

private theorem estimate_effect (total throughput : Rat)
    (here : state.main = .estimate total throughput) :
    MainEffect est cfg input state (estimate est input state total throughput) := by
  unfold estimate
  split
  · exact .jump _ rfl
  · rename_i next od asked answer
    refine ⟨.refl, nofun, ?_, rfl, rfl, rfl⟩
    intro b aims
    obtain rfl := Option.some.inj aims
    exact .inr ⟨total, throughput, next, od, here, answer⟩

private theorem scaleOnD_effect (od b : Int) (here : state.main = .scaleOnD od b) :
    MainEffect est cfg input state (scaleOnD input state od b) := by
  unfold scaleOnD
  split
  · have started : Moves cfg state.risks state.fleet
        (state.fleet.startOnD input.now od state.fleet.onD).fleet := by
      apply startOnD_moves input.now od state.fleet.onD state.fleet rfl
      intro positive empty pool
      simp [State.risks, State.startsFirstOnD, here, positive, empty, pool]
    dsimp only
    split
    · exact .move started _ rfl
    · exact .keep started _ rfl (by rw [here]; rfl)
  · split
    · have stopped : Moves cfg state.risks state.fleet
          (state.fleet.stopOnD od state.fleet.currOnD).fleet :=
        stopOnD_moves od state.fleet.currOnD state.fleet rfl
      dsimp only
      split
      · exact .move stopped _ rfl
      · exact .keep stopped _ rfl (by rw [here]; rfl)
    · exact .keep .refl _ rfl (by rw [here]; rfl)

private theorem blockOnD_effect (i stop : Nat) (b : Int) (here : state.main = .blockOnD i stop b) :
    MainEffect est cfg input state (blockOnD state i stop b) := by
  unfold blockOnD
  split
  · split
    · exact .jump _ rfl
    · rename_i node found
      have member := List.mem_append_left state.fleet.currBur (List.mem_of_getElem? found)
      exact .keep (.single (.running member)) _ rfl (by rw [here]; rfl)
  · exact .keep .refl _ rfl (by rw [here]; rfl)

private theorem scaleBur_effect (b : Int) (here : state.main = .scaleBur b) :
    MainEffect est cfg input state (scaleBur cfg input state b) := by
  unfold scaleBur
  split
  · have started : Moves cfg state.risks state.fleet
        (state.fleet.scaleUpBur input.now input.credit cfg.L b).fleet :=
      scaleUpBur_moves input.now input.credit b state.fleet
    dsimp only
    split
    · exact .move started _ rfl
    · exact .move started _ rfl
  · split
    · refine .keep (.single (.touch ?_ (touched_same _))) _ rfl (by rw [here]; rfl)
      exact touched_map _ (readCredit_touched input.credit) _
    · exact .jump _ rfl

private theorem blockBur_effect (i stop : Nat) :
    MainEffect est cfg input state (blockBur state i stop) := by
  unfold blockBur
  split
  · split
    · exact .jump _ rfl
    · rename_i node found
      have member := List.mem_append_right state.fleet.currOnD (List.mem_of_getElem? found)
      exact .move (.single (.running member)) _ rfl
  · exact .jump _ rfl

end Stages

theorem mainStep_effect {input : MainInput} (taken : mainStep est cfg input before = some after)
    (held : before.SortHeld) : MainEffect est cfg input before after := by
  unfold mainStep at taken
  cases here : before.main <;> rw [here] at taken <;> cases taken
  case loopHead =>
    split
    · exact .jump _ rfl
    · exact .jump _ rfl
  case drainCheck j left => exact drainCheck_effect j left
  case drainMove j left => exact drainMove_effect j left
  case stopIssue i lenStopped => exact stopIssue_effect i lenStopped here
  case stopBlock i lenStopped => exact stopBlock_effect i lenStopped
  case repool left => exact repool_effect left
  case rate => exact measureRate_effect
  case creditTotal index total throughput => exact creditTotal_effect index total throughput
  case estimate total throughput => exact estimate_effect total throughput here
  case scaleOnD od b => exact scaleOnD_effect od b here
  case blockOnD i stop b => exact blockOnD_effect i stop b here
  case scaleBur b => exact scaleBur_effect b here
  case blockBur i stop => exact blockBur_effect i stop
  case sortStart b =>
    have idle := held.outside (by rw [here]; rfl)
    exact ⟨.single (.beginSort idle ⟨b, here⟩), fun _sorting => ⟨b, here⟩,
      fun _b aims => .inl (here ▸ aims), rfl, rfl, rfl⟩
  case sorting b =>
    exact .keep (.single (.endSort (held.inside (by rw [here]; rfl)))) _ rfl (by rw [here]; rfl)
  case drainPick b =>
    exact .move (drainBur_moves b _ _ rfl ⟨b, here⟩) _ rfl
  case sleep =>
    exact .jump _ rfl
  case finalWait =>
    split
    · exact .keep .refl _ (by rw [here]; rfl) rfl
    · exact .jump _ rfl
  case finish =>
    exact .move (.single (.close input.now)) _ rfl

/-! ### The short-term thread -/

def Updates (before after : State) : Prop :=
  before.short.isLocked = true ∧ after.short = .sleep

instance (before after : State) : Decidable (Updates before after) :=
  inferInstanceAs (Decidable (_ ∧ _))

structure ShortEffect (cfg : Config) (before after : State) : Prop where
  touched : ∃ currBur pending,
    List.Forall₂ (Touched cfg) before.fleet.currBur currBur ∧
    List.Forall₂ (Touched cfg) before.fleet.stoppedInstancesPending pending ∧
    after.fleet = { before.fleet with currBur := currBur, stoppedInstancesPending := pending }
  main : after.main = before.main
  clientRunning : after.clientRunning = before.clientRunning
  updated : Updates before after → after.upstream = after.fleet.rotation
  kept : ¬Updates before after → after.upstream = before.upstream

private theorem ShortEffect.jump (short : ShortPc) (unlocked : before.short.isLocked = false) :
    ShortEffect cfg before { before with short := short } := by
  refine ⟨⟨_, _, touched_same _, touched_same _, rfl⟩, rfl, rfl, ?_, fun _plain => rfl⟩
  intro updates
  rw [updates.1] at unlocked
  cases unlocked

theorem latencyOptimizer_touched (cfg : Config) (optimizer : OptimizerState) (bur : List Node)
    (latency : Latency) (pending : List Node) :
    List.Forall₂ (Touched cfg) bur (latencyOptimizer cfg optimizer bur latency pending).bur ∧
      List.Forall₂ (Touched cfg) pending
        (latencyOptimizer cfg optimizer bur latency pending).burStopPending := by
  cases latency with
  | empty => exact ⟨touched_same _, touched_same _⟩
  | malformed => exact ⟨touched_same _, touched_same _⟩
  | numeric value =>
      cases bur with
      | nil => exact ⟨.nil, touched_same _⟩
      | cons first rest =>
          exact ⟨touched_map _ (reweigh_touched _ _) _, touched_map _ (reweighPending_touched _) _⟩

private theorem shortLocked_effect (latency : Latency) (sent : Bool)
    (here : before.short = .locked latency) :
    ShortEffect cfg before (shortLocked cfg before latency sent) := by
  obtain ⟨running, draining⟩ := latencyOptimizer_touched cfg before.optimizer
    before.fleet.currBur latency before.fleet.stoppedInstancesPending
  unfold shortLocked
  dsimp only
  split
  · refine ⟨⟨_, _, running, draining, rfl⟩, rfl, rfl, ?_, fun _plain => rfl⟩
    intro updates
    cases updates.2
  · refine ⟨⟨_, _, running, draining, rfl⟩, rfl, rfl, fun _updates => rfl, ?_⟩
    intro plain
    exact absurd ⟨by rw [here]; rfl, rfl⟩ plain

theorem shortStep_effect {input : ShortInput} (taken : shortStep cfg before input = some after) :
    ShortEffect cfg before after := by
  unfold shortStep at taken
  cases here : before.short <;> rw [here] at taken <;> cases taken
  case check =>
    split
    · exact .jump _ (by rw [here]; rfl)
    · exact .jump _ (by rw [here]; rfl)
  case latency => exact .jump _ (by rw [here]; rfl)
  case locked latency => exact shortLocked_effect latency input.sent here
  case sleep => exact .jump _ (by rw [here]; rfl)
  case leave =>
    refine ⟨⟨_, _, touched_same _, touched_same _, rfl⟩, rfl, rfl, ?_, fun _plain => rfl⟩
    intro updates
    cases updates.2

theorem ShortEffect.moves {risks : Risk → Prop} (effect : ShortEffect cfg before after) :
    Moves cfg risks before.fleet after.fleet := by
  obtain ⟨currBur, pending, running, draining, same⟩ := effect.touched
  rw [same]
  exact .single (.touch running draining)

/-! ### Sorting -/

private theorem moves_sorting {risks : Risk → Prop} {first last : Fleet}
    (moves : Moves cfg risks first last) (quiet : ¬risks .beginSort)
    (idle : first.sorting = []) : last.sorting = [] := by
  induction moves with
  | refl => exact idle
  | tail _moves move ih =>
      cases move with
      | beginSort _idle risk => exact absurd risk quiet
      | endSort _empty => rfl
      | _ => exact ih

private theorem mainStep_sortHeld {input : MainInput}
    (taken : mainStep est cfg input before = some after) (held : before.SortHeld) :
    after.SortHeld := by
  have effect := mainStep_effect taken held
  by_cases starts : ∃ b, before.main = .sortStart b
  · obtain ⟨b, here⟩ := starts
    unfold mainStep at taken
    rw [here] at taken
    cases taken
    exact ⟨fun _inside => rfl, nofun⟩
  · refine ⟨fun inside => absurd (effect.sorting inside) starts, fun _outside => ?_⟩
    cases here : before.main.isSorting with
    | false => exact moves_sorting effect.moves starts (held.outside here)
    | true =>
        obtain ⟨b, there⟩ := MainPc.exists_of_isSorting here
        unfold mainStep at taken
        rw [there] at taken
        cases taken
        rfl

private theorem shortStep_sortHeld {input : ShortInput}
    (taken : shortStep cfg before input = some after) (held : before.SortHeld) :
    after.SortHeld := by
  have effect := shortStep_effect taken
  obtain ⟨currBur, pending, running, _draining, same⟩ := effect.touched
  constructor
  · intro inside
    rw [effect.main] at inside
    have empty := held.inside inside
    rw [empty] at running
    rw [same]
    exact List.forall₂_nil_left_iff.mp running
  · intro outside
    rw [effect.main] at outside
    rw [same]
    exact held.outside outside

theorem step_sortHeld {action : Act} (taken : step est cfg before action = some after)
    (held : before.SortHeld) : after.SortHeld := by
  cases action with
  | main input => exact mainStep_sortHeld taken held
  | short input => exact shortStep_sortHeld taken held
  | clientDone =>
      cases taken
      exact ⟨held.inside, held.outside⟩

/-! ### Any step -/

def State.risksOf (state : State) : Act → Risk → Prop
  | .main _input => state.risks
  | .short _input => fun _risk => False
  | .clientDone => fun _risk => False

theorem step_moves {action : Act} (taken : step est cfg before action = some after)
    (held : before.SortHeld) : Moves cfg (before.risksOf action) before.fleet after.fleet := by
  cases action with
  | main input => exact (mainStep_effect taken held).moves
  | short input => exact (shortStep_effect taken).moves
  | clientDone =>
      cases taken
      exact .refl

/-- Only an update changes the deployed list, to the rotation at that time. -/
theorem step_upstream {action : Act} (taken : step est cfg before action = some after)
    (held : before.SortHeld) :
    after.upstream = before.upstream ∨ after.upstream = after.fleet.rotation := by
  cases action with
  | main input => exact .inl (mainStep_effect taken held).upstream
  | short input =>
      have effect := shortStep_effect taken
      by_cases updates : Updates before after
      · exact .inr (effect.updated updates)
      · exact .inl (effect.kept updates)
  | clientDone =>
      cases taken
      exact .inl rfl

/-! ### What the other threads leave alone -/

def Node.known (node : Node) : Info × Rat := (node.info, node.creditBalance)

/-- The main thread stands where it stood and every list has its instances in
the same order, with the same credits. -/
structure Unmoved (before after : State) : Prop where
  main : after.main = before.main
  currBur : after.fleet.currBur.map Node.known = before.fleet.currBur.map Node.known
  pending : after.fleet.stoppedInstancesPending.map Node.known =
    before.fleet.stoppedInstancesPending.map Node.known
  sorting : after.fleet.sorting = before.fleet.sorting
  stopped : after.fleet.stoppedInstances = before.fleet.stoppedInstances

theorem latencyOptimizer_known (cfg : Config) (optimizer : OptimizerState) (bur : List Node)
    (latency : Latency) (pending : List Node) :
    (latencyOptimizer cfg optimizer bur latency pending).bur.map Node.known =
        bur.map Node.known ∧
      (latencyOptimizer cfg optimizer bur latency pending).burStopPending.map Node.known =
        pending.map Node.known := by
  cases latency with
  | empty => exact ⟨rfl, rfl⟩
  | malformed => exact ⟨rfl, rfl⟩
  | numeric value =>
      cases bur with
      | nil => exact ⟨rfl, rfl⟩
      | cons first rest => exact ⟨List.map_map, List.map_map⟩

private theorem shortStep_unmoved {input : ShortInput}
    (taken : shortStep cfg before input = some after) : Unmoved before after := by
  unfold shortStep at taken
  cases here : before.short <;> rw [here] at taken <;> cases taken
  case check => split <;> exact ⟨rfl, rfl, rfl, rfl, rfl⟩
  case latency => exact ⟨rfl, rfl, rfl, rfl, rfl⟩
  case locked latency =>
    obtain ⟨currBur, pending⟩ := latencyOptimizer_known cfg before.optimizer
      before.fleet.currBur latency before.fleet.stoppedInstancesPending
    unfold shortLocked
    dsimp only
    split <;> exact ⟨rfl, currBur, pending, rfl, rfl⟩
  case sleep => exact ⟨rfl, rfl, rfl, rfl, rfl⟩
  case leave => exact ⟨rfl, rfl, rfl, rfl, rfl⟩

/-- What the steps of the main thread keep, and depends only on what the other
threads leave alone, holds in every state reached. -/
theorem reach_unmoved {allowed : State → Act → Prop} {start state : State}
    (reach : Reach (step est cfg) allowed start state) (holds : State → Prop)
    (initial : holds start)
    (main : ∀ before after input, mainStep est cfg input before = some after →
      allowed before (.main input) → holds before → holds after)
    (others : ∀ before after, Unmoved before after → holds before → holds after) :
    holds state := by
  refine reach.invariant holds initial ?_
  intro before action after taken permitted
  cases action with
  | main input => exact main before after input taken permitted
  | short input => exact others before after (shortStep_unmoved taken)
  | clientDone =>
      cases taken
      exact others _ _ ⟨rfl, rfl, rfl, rfl, rfl⟩

end AutoBurst.Controller
