/-
The end of an experiment. Once the client is done the main thread finishes the
iteration it is in and waits for the short-term thread, which has at most one
more round to go. The number of steps both still take is bounded by the number
of instances, not counting the questions that are asked again and again: a
short-term thread that raised, or whose latency stays `null`, keeps the main
thread waiting.
-/

import AutoBurst.Controller.Conservation
import AutoBurst.Controller.ShortTermSafety

namespace AutoBurst.Controller

open Runs

/-! ### What is left of an iteration -/

/-- A bound on the steps of the main thread, the client being done; each stage
counts the loops of the stages after it as long as the fleet. -/
def MainPc.stepsLeft (size : Nat) : MainPc → Nat
  | .drainMove _j left => 2 * left + 6 * size + 18
  | .drainCheck _j left => 2 * left + 6 * size + 17
  | .stopIssue i lenStopped => (lenStopped - i) + 2 * lenStopped + 3 * size + 16
  | .stopBlock i lenStopped => (lenStopped - i) + lenStopped + 3 * size + 15
  | .repool left => left + 3 * size + 14
  | .rate => 3 * size + 13
  | .creditTotal index _total _throughput => (size - index) + 2 * size + 12
  | .estimate _total _throughput => 2 * size + 11
  | .scaleOnD _od _b => 2 * size + 10
  | .blockOnD i stop _b => (stop - i) + size + 9
  | .scaleBur _b => size + 8
  | .sortStart _b => 7
  | .sorting _b => 6
  | .drainPick _b => 5
  | .blockBur i stop => (stop - i) + 5
  | .sleep => 4
  | .loopHead => 3
  | .finalWait => 2
  | .finish => 1
  | .done => 0
  | .raised => 0

def MainPc.counter : MainPc → Nat
  | .drainMove _j left => left
  | .drainCheck _j left => left
  | .stopIssue _i lenStopped => lenStopped
  | .stopBlock _i lenStopped => lenStopped
  | .repool left => left
  | .blockOnD _i stop _b => stop
  | .blockBur _i stop => stop
  | _ => 0

theorem MainPc.stepsLeft_le {size : Nat} {main : MainPc} (counter : main.counter ≤ size) :
    main.stepsLeft size ≤ 8 * size + 18 := by
  cases main <;> simp only [MainPc.stepsLeft, MainPc.counter] at counter ⊢ <;> omega

theorem ShortPc.left_le (short : ShortPc) : short.left ≤ 5 := by
  cases short <;> simp only [ShortPc.left] <;> omega

theorem Fleet.length_le (fleet : Fleet) :
    fleet.stoppedInstances.length ≤ fleet.nodes.length ∧
      fleet.currOnD.length ≤ fleet.nodes.length ∧
      fleet.currBur.length + fleet.stoppedInstancesPending.length ≤ fleet.nodes.length := by
  simp only [Fleet.nodes, List.length_append]
  omega

def State.waits (state : State) : Bool :=
  decide (state.main = .finalWait) && state.shortTermThreadRunning

section Main

variable {est : Estimator} {cfg : Config} {input : MainInput} {state after : State} {size : Nat}

structure Shorter (size : Nat) (state after : State) : Prop where
  left : state.clientRunning = false → state.waits = false →
    after.main.stepsLeft size < state.main.stepsLeft size
  counter : after.main.counter ≤ size
  clientRunning : after.clientRunning = state.clientRunning

private theorem Shorter.of {pc : MainPc} (here : state.main = pc)
    (both : after.main.stepsLeft size < pc.stepsLeft size ∧ after.main.counter ≤ size)
    (clientRunning : after.clientRunning = state.clientRunning) : Shorter size state after := by
  refine ⟨fun _ended _moves => ?_, both.2, clientRunning⟩
  rw [here]
  exact both.1

section Stages

private theorem drainCheck_shorter {j left : Nat} (here : state.main = .drainCheck j left)
    (counter : left ≤ size) (fits : state.fleet.nodes.length = size) :
    Shorter size state (drainCheck input state j left) := by
  have stopped := state.fleet.length_le.1
  cases left with
  | zero =>
      refine .of here ?_ rfl
      simp only [drainCheck, MainPc.stepsLeft, MainPc.counter]
      omega
  | succ left =>
      simp only [drainCheck]
      split
      · exact .of here (by simp only [MainPc.stepsLeft, MainPc.counter]; omega) rfl
      · split
        · exact .of here (by simp only [MainPc.stepsLeft, MainPc.counter]; omega) rfl
        · exact .of here (by simp only [MainPc.stepsLeft, MainPc.counter]; omega) rfl

private theorem drainMove_shorter {j left : Nat} (here : state.main = .drainMove j left)
    (counter : left ≤ size) : Shorter size state (drainMove state j left) := by
  unfold drainMove
  split
  · exact .of here (by simp only [MainPc.stepsLeft, MainPc.counter]; omega) rfl
  · exact .of here (by simp only [MainPc.stepsLeft, MainPc.counter]; omega) rfl

private theorem stopIssue_shorter {i lenStopped : Nat}
    (here : state.main = .stopIssue i lenStopped) (counter : lenStopped ≤ size) :
    Shorter size state (stopIssue state i lenStopped) := by
  unfold stopIssue
  split
  · split
    · exact .of here (by simp only [MainPc.stepsLeft, MainPc.counter]; omega) rfl
    · exact .of here (by simp only [MainPc.stepsLeft, MainPc.counter]; omega) rfl
  · exact .of here (by simp only [MainPc.stepsLeft, MainPc.counter]; omega) rfl

private theorem stopBlock_shorter {i lenStopped : Nat}
    (here : state.main = .stopBlock i lenStopped) (counter : lenStopped ≤ size) :
    Shorter size state (stopBlock state i lenStopped) := by
  unfold stopBlock
  split
  · split
    · exact .of here (by simp only [MainPc.stepsLeft, MainPc.counter]; omega) rfl
    · exact .of here (by simp only [MainPc.stepsLeft, MainPc.counter]; omega) rfl
  · exact .of here (by simp only [MainPc.stepsLeft, MainPc.counter]; omega) rfl

private theorem repool_shorter {left : Nat} (here : state.main = .repool left)
    (counter : left ≤ size) : Shorter size state (repool input state left) := by
  cases left with
  | zero =>
      refine .of here ?_ rfl
      simp only [repool, MainPc.stepsLeft, MainPc.counter]
      omega
  | succ left =>
      simp only [repool]
      split
      · exact .of here (by simp only [MainPc.stepsLeft, MainPc.counter]; omega) rfl
      · exact .of here (by simp only [MainPc.stepsLeft, MainPc.counter]; omega) rfl

private theorem measureRate_shorter (here : state.main = .rate) :
    Shorter size state (measureRate cfg input state) := by
  unfold measureRate
  split
  · exact .of here (by simp only [MainPc.stepsLeft, MainPc.counter]; omega) rfl
  · dsimp only
    split
    · exact .of here (by simp only [MainPc.stepsLeft, MainPc.counter]; omega) rfl
    · exact .of here (by simp only [MainPc.stepsLeft, MainPc.counter]; omega) rfl

private theorem creditTotal_shorter {index : Nat} {total throughput : Rat}
    (here : state.main = .creditTotal index total throughput)
    (fits : state.fleet.nodes.length = size) :
    Shorter size state (creditTotal input state index total throughput) := by
  have listed := state.fleet.length_le.2.2
  unfold creditTotal
  split
  · exact .of here (by simp only [MainPc.stepsLeft, MainPc.counter]; omega) rfl
  · rename_i fleet credit read
    have inside := (readCreditAt_bound read).1
    exact .of here (by simp only [MainPc.stepsLeft, MainPc.counter]; omega) rfl

private theorem estimate_shorter {total throughput : Rat}
    (here : state.main = .estimate total throughput) :
    Shorter size state (estimate est input state total throughput) := by
  unfold estimate
  split
  · exact .of here (by simp only [MainPc.stepsLeft, MainPc.counter]; omega) rfl
  · exact .of here (by simp only [MainPc.stepsLeft, MainPc.counter]; omega) rfl

/-- The instances to wait for are running ones. -/
private theorem scaleOnD_shorter {od b : Int} (here : state.main = .scaleOnD od b)
    (taken : scaleOnD input state od b = after) (fits : after.fleet.nodes.length = size) :
    Shorter size state after := by
  have running := after.fleet.length_le.2.1
  unfold scaleOnD at taken
  split at taken
  · dsimp only at taken
    split at taken
    · subst taken
      exact .of here (by simp only [MainPc.stepsLeft, MainPc.counter]; omega) rfl
    · subst taken
      dsimp only at running fits
      exact .of here (by simp only [MainPc.stepsLeft, MainPc.counter]; omega) rfl
  · split at taken
    · subst taken
      dsimp only
      split
      · exact .of here (by simp only [MainPc.stepsLeft, MainPc.counter]; omega) rfl
      · exact .of here (by simp only [MainPc.stepsLeft, MainPc.counter]; omega) rfl
    · subst taken
      exact .of here (by simp only [MainPc.stepsLeft, MainPc.counter]; omega) rfl

private theorem blockOnD_shorter {i stop : Nat} {b : Int} (here : state.main = .blockOnD i stop b)
    (counter : stop ≤ size) : Shorter size state (blockOnD state i stop b) := by
  unfold blockOnD
  split
  · split
    · exact .of here (by simp only [MainPc.stepsLeft, MainPc.counter]; omega) rfl
    · exact .of here (by simp only [MainPc.stepsLeft, MainPc.counter]; omega) rfl
  · exact .of here (by simp only [MainPc.stepsLeft, MainPc.counter]; omega) rfl

private theorem scaleBur_shorter {b : Int} (here : state.main = .scaleBur b)
    (taken : scaleBur cfg input state b = after) (fits : after.fleet.nodes.length = size) :
    Shorter size state after := by
  have running := after.fleet.length_le.2.2
  unfold scaleBur at taken
  split at taken
  · dsimp only at taken
    split at taken
    · subst taken
      exact .of here (by simp only [MainPc.stepsLeft, MainPc.counter]; omega) rfl
    · subst taken
      dsimp only at running fits
      exact .of here (by simp only [MainPc.stepsLeft, MainPc.counter]; omega) rfl
  · split at taken
    · subst taken
      exact .of here (by simp only [MainPc.stepsLeft, MainPc.counter]; omega) rfl
    · subst taken
      exact .of here (by simp only [MainPc.stepsLeft, MainPc.counter]; omega) rfl

private theorem blockBur_shorter {i stop : Nat} (here : state.main = .blockBur i stop)
    (counter : stop ≤ size) : Shorter size state (blockBur state i stop) := by
  unfold blockBur
  split
  · split
    · exact .of here (by simp only [MainPc.stepsLeft, MainPc.counter]; omega) rfl
    · exact .of here (by simp only [MainPc.stepsLeft, MainPc.counter]; omega) rfl
  · exact .of here (by simp only [MainPc.stepsLeft, MainPc.counter]; omega) rfl

end Stages

/-- Only a main thread that tests the loop condition while the client runs, or
that waits, does not come closer to its end. -/
theorem mainStep_shorter (taken : mainStep est cfg input state = some after)
    (counter : state.main.counter ≤ size) (before : state.fleet.nodes.length = size)
    (fits : after.fleet.nodes.length = size) : Shorter size state after := by
  unfold mainStep at taken
  cases here : state.main <;> rw [here] at taken counter <;> cases taken
  case loopHead =>
    split
    · rename_i running
      refine ⟨fun ended => ?_, ?_, rfl⟩
      · rw [ended] at running
        cases running
      · have := state.fleet.length_le.2.2
        simp only [MainPc.counter]
        omega
    · exact .of here (by simp only [MainPc.stepsLeft, MainPc.counter]; omega) rfl
  case drainCheck j left => exact drainCheck_shorter here counter before
  case drainMove j left => exact drainMove_shorter here counter
  case stopIssue i lenStopped => exact stopIssue_shorter here counter
  case stopBlock i lenStopped => exact stopBlock_shorter here counter
  case repool left => exact repool_shorter here counter
  case rate => exact measureRate_shorter here
  case creditTotal index total throughput => exact creditTotal_shorter here before
  case estimate total throughput => exact estimate_shorter here
  case scaleOnD od b => exact scaleOnD_shorter here rfl fits
  case blockOnD i stop b => exact blockOnD_shorter here counter
  case scaleBur b => exact scaleBur_shorter here rfl fits
  case blockBur i stop => exact blockBur_shorter here counter
  case finalWait =>
    split
    · rename_i waiting
      refine ⟨fun _ended moves => ?_, by rw [here]; exact counter, rfl⟩
      unfold State.waits at moves
      rw [waiting, here] at moves
      cases moves
    · exact .of here (by simp only [MainPc.stepsLeft, MainPc.counter]; omega) rfl
  all_goals exact .of here (by simp only [finish, MainPc.stepsLeft, MainPc.counter]; omega) rfl

end Main

/-! ### Both threads -/

/-- A step that is not a turn of a wait. -/
def Act.progresses (state : State) : Act → Bool
  | .main _input => !state.waits
  | .short _input => true
  | .clientDone => false

def MainPc.blocks : MainPc → Bool
  | .stopBlock i lenStopped => decide (i < lenStopped)
  | .blockOnD i stop _b => decide (i < stop)
  | .blockBur i stop => decide (i < stop)
  | _ => false

/-- The steps of the machine take every call to return. Two calls ask again and
again: `getLatencyStatsK6Cloud` while the answer is `null`, and `block` while the
instance is in another state; `block` raises where there is no such instance. -/
inductive Turn
  | acts (action : Act)
  | nullLatency
  | otherState
  | notFound

def turnStep (est : Estimator) (cfg : Config) (state : State) : Turn → Option State
  | .acts action => step est cfg state action
  | .nullLatency => if state.short = .latency then some state else none
  | .otherState => if state.main.blocks then some state else none
  | .notFound => if state.main.blocks then some { state with main := .raised } else none

def Turn.progresses (state : State) : Turn → Bool
  | .acts action => action.progresses state
  | .nullLatency => false
  | .otherState => false
  | .notFound => true

def tally (before : State) (turn : Turn) (_after : State) (turns : Nat) : Nat :=
  if turn.progresses before then turns + 1 else turns

def State.stepsLeft (size : Nat) (state : State) : Nat :=
  state.main.stepsLeft size + state.short.left

structure Winding (size : Nat) (state : State) : Prop where
  held : state.SortHeld
  fits : state.fleet.nodes.length = size
  counter : state.main.counter ≤ size
  flag : state.shortTermThreadRunning = false → state.short = .exited
  gone : state.short = .exited → state.shortTermThreadRunning = false

section Runs

variable {est : Estimator} {cfg : Config} {base : UpstreamBlock} {created : List Info}
  {input : StartInput} {start state after : State} {size : Nat}

/-- No step lists an instance more or fewer times. -/
private theorem step_nodes {action : Act} (held : state.SortHeld)
    (taken : step est cfg state action = some after) :
    after.fleet.nodes.length = state.fleet.nodes.length := by
  have listed : ∀ info, after.fleet.listed info = state.fleet.listed info := by
    intro info
    refine moves_invariant (step_moves taken held) (fun _risk risked => risked)
      (fun fleet => fleet.listed info = state.fleet.listed info) ?_ rfl
    intro first last move same
    rw [move.listed info, same]
  have lengths := (List.perm_iff_count.mpr listed).length_eq
  rw [List.length_map, List.length_map] at lengths
  exact lengths

/-- A step of the short-term thread that does not leave keeps the flag. -/
private theorem shortStep_flag {input : ShortInput} (taken : shortStep cfg state input = some after)
    (flag : state.shortTermThreadRunning = false → state.short = .exited) :
    (after.shortTermThreadRunning = false → after.short = .exited) ∧
      (after.short = .exited → after.shortTermThreadRunning = false) := by
  have stays : ∀ next : State, next.shortTermThreadRunning = state.shortTermThreadRunning →
      state.short ≠ .exited → next.short ≠ .exited →
      (next.shortTermThreadRunning = false → next.short = .exited) ∧
        (next.short = .exited → next.shortTermThreadRunning = false) := by
    intro next same inside still
    refine ⟨fun cleared => ?_, fun left => absurd left still⟩
    rw [same] at cleared
    exact absurd (flag cleared) inside
  unfold shortStep at taken
  cases here : state.short <;> rw [here] at taken stays <;> cases taken
  case check =>
    apply stays _ _ ShortPc.noConfusion
    · split <;> exact ShortPc.noConfusion
    · split <;> rfl
  case latency => exact stays _ rfl ShortPc.noConfusion ShortPc.noConfusion
  case locked latency =>
    apply stays _ _ ShortPc.noConfusion
    · unfold shortLocked
      dsimp only
      split <;> exact ShortPc.noConfusion
    · unfold shortLocked
      dsimp only
      split <;> rfl
  case sleep => exact stays _ rfl ShortPc.noConfusion ShortPc.noConfusion
  case leave => exact ⟨fun _cleared => rfl, fun _left => rfl⟩

private theorem shortStep_shorter {input : ShortInput}
    (taken : shortStep cfg state input = some after) (ended : state.clientRunning = false) :
    after.short.left < state.short.left := by
  unfold shortStep at taken
  cases here : state.short <;> rw [here] at taken <;> cases taken
  case check =>
    rw [ended]
    exact Nat.lt_succ_self _
  case latency => exact Nat.lt_succ_self _
  case locked latency =>
    unfold shortLocked
    dsimp only
    split
    · exact Nat.zero_lt_succ _
    · exact Nat.lt_succ_self _
  case sleep => exact Nat.lt_succ_self _
  case leave => exact Nat.lt_succ_self _

theorem Winding.of_step (winding : Winding size state) {action : Act}
    (taken : step est cfg state action = some after) : Winding size after := by
  have held := step_sortHeld taken winding.held
  have fits : after.fleet.nodes.length = size := (step_nodes winding.held taken).trans winding.fits
  cases action with
  | main input =>
      have effect := mainStep_effect taken winding.held
      have shorter := mainStep_shorter taken winding.counter winding.fits fits
      refine ⟨held, fits, shorter.counter, ?_, ?_⟩
      · rw [effect.shortTermThreadRunning, effect.short]
        exact winding.flag
      · rw [effect.shortTermThreadRunning, effect.short]
        exact winding.gone
  | short input =>
      obtain ⟨flag, gone⟩ := shortStep_flag taken winding.flag
      refine ⟨held, fits, ?_, flag, gone⟩
      rw [(shortStep_effect taken).main]
      exact winding.counter
  | clientDone =>
      cases taken
      exact ⟨held, fits, winding.counter, winding.flag, winding.gone⟩

/-- A thread that sorts is in no call of `block`. -/
private theorem MainPc.isSorting_of_blocks {main : MainPc} (blocks : main.blocks = true) :
    main.isSorting = false := by
  cases main with
  | sorting b => cases blocks
  | _ => rfl

/-- A step of the machine, a question asked again, or the exception of `block`. -/
theorem turnStep_cases {turn : Turn} (taken : turnStep est cfg state turn = some after) :
    (∃ action, turn = .acts action ∧ step est cfg state action = some after) ∨
      (turn.progresses state = false ∧ after = state) ∨
      (turn = .notFound ∧ state.main.blocks = true ∧ after = { state with main := .raised }) := by
  cases turn with
  | acts action => exact .inl ⟨action, rfl, taken⟩
  | nullLatency =>
      obtain ⟨_asking, same⟩ := Option.ite_none_right_eq_some.mp taken
      exact .inr (.inl ⟨rfl, (Option.some.inj same).symm⟩)
  | otherState =>
      obtain ⟨_blocks, same⟩ := Option.ite_none_right_eq_some.mp taken
      exact .inr (.inl ⟨rfl, (Option.some.inj same).symm⟩)
  | notFound =>
      obtain ⟨blocks, same⟩ := Option.ite_none_right_eq_some.mp taken
      exact .inr (.inr ⟨rfl, blocks, (Option.some.inj same).symm⟩)

theorem Winding.of_turn (winding : Winding size state) {turn : Turn}
    (taken : turnStep est cfg state turn = some after) : Winding size after := by
  obtain ⟨action, rfl, stepped⟩ | ⟨_again, rfl⟩ | ⟨rfl, blocks, rfl⟩ := turnStep_cases taken
  · exact winding.of_step stepped
  · exact winding
  · have outside := winding.held.outside (MainPc.isSorting_of_blocks blocks)
    exact ⟨⟨nofun, fun _outside => outside⟩, winding.fits, Nat.zero_le _, winding.flag,
      winding.gone⟩

private theorem startUp_running (started : startUp cfg base created input = some start) :
    start.shortTermThreadRunning = true := by
  obtain ⟨fleet, _taken, launched⟩ := Option.bind_eq_some_iff.mp started
  obtain ⟨weighted, _weights, ledgers⟩ := Option.bind_eq_some_iff.mp launched
  obtain ⟨burCost, _opened, rest⟩ := Option.bind_eq_some_iff.mp ledgers
  obtain ⟨ondCost, _openedOnD, rfl⟩ := Option.map_eq_some_iff.mp rest
  rfl

theorem reach_winding (started : startUp cfg base created input = some start)
    (reach : Reach (turnStep est cfg) (fun _ _ => True) start state) :
    Winding start.fleet.nodes.length state := by
  have initial : Winding start.fleet.nodes.length start := by
    obtain ⟨fleet, taken, launched⟩ := startUp_launched started
    refine ⟨launched.sortHeld (setStartUpNodes_sorting taken), rfl, ?_, ?_, ?_⟩
    · rw [launched.main]
      exact Nat.zero_le _
    · rw [startUp_running started]
      exact fun cleared => Bool.noConfusion cleared
    · rw [launched.short]
      exact ShortPc.noConfusion
  exact reach.invariant (Winding start.fleet.nodes.length) initial
    (fun _before _turn _after taken _ winding => winding.of_turn taken)

private theorem mainStep_waits {input : MainInput} (waits : state.waits = true)
    (taken : mainStep est cfg input state = some after) : after = state := by
  unfold State.waits at waits
  rw [Bool.and_eq_true, decide_eq_true_eq] at waits
  unfold mainStep at taken
  rw [waits.1] at taken
  dsimp only at taken
  rw [if_pos waits.2] at taken
  exact (Option.some.inj taken).symm

/-- Each step that is not a turn of a wait brings the end closer. -/
private theorem step_stepsLeft (winding : Winding size state)
    (ended : state.clientRunning = false) {action : Act}
    (taken : step est cfg state action = some after) :
    after.clientRunning = false ∧
      (if action.progresses state then 1 else 0) + after.stepsLeft size ≤ state.stepsLeft size := by
  have fits : after.fleet.nodes.length = size := (step_nodes winding.held taken).trans winding.fits
  unfold State.stepsLeft
  cases action with
  | main input =>
      have shorter := mainStep_shorter taken winding.counter winding.fits fits
      rw [shorter.clientRunning, (mainStep_effect taken winding.held).short]
      refine ⟨ended, ?_⟩
      cases waits : state.waits with
      | false =>
          have left := shorter.left ended waits
          simp only [Act.progresses, waits, Bool.not_false, if_true]
          omega
      | true =>
          rw [mainStep_waits waits taken]
          simp only [Act.progresses, waits, Bool.not_true, Bool.false_eq_true, if_false]
          omega
  | short input =>
      have left := shortStep_shorter taken ended
      have effect := shortStep_effect taken
      rw [effect.clientRunning, effect.main]
      refine ⟨ended, ?_⟩
      simp only [Act.progresses, if_true]
      omega
  | clientDone =>
      cases taken
      refine ⟨rfl, ?_⟩
      simp only [Act.progresses, Bool.false_eq_true, if_false]
      omega

/-- A thread in a call of `block` has a step to go. -/
private theorem MainPc.stepsLeft_of_blocks {main : MainPc} (blocks : main.blocks = true) :
    1 ≤ main.stepsLeft size := by
  cases main with
  | stopBlock i lenStopped =>
      rw [MainPc.stepsLeft]
      omega
  | blockOnD i stop b =>
      rw [MainPc.stepsLeft]
      omega
  | blockBur i stop =>
      rw [MainPc.stepsLeft]
      omega
  | _ => cases blocks

theorem turn_stepsLeft (winding : Winding size state) (ended : state.clientRunning = false)
    {turn : Turn} (taken : turnStep est cfg state turn = some after) :
    after.clientRunning = false ∧
      (if turn.progresses state then 1 else 0) + after.stepsLeft size ≤ state.stepsLeft size := by
  obtain ⟨action, rfl, stepped⟩ | ⟨again, rfl⟩ | ⟨rfl, blocks, rfl⟩ := turnStep_cases taken
  · exact step_stepsLeft winding ended stepped
  · rw [again, if_neg Bool.false_ne_true, Nat.zero_add]
    exact ⟨ended, Nat.le_refl _⟩
  · refine ⟨ended, ?_⟩
    have some_ : 1 ≤ state.main.stepsLeft size := MainPc.stepsLeft_of_blocks blocks
    change 1 + (0 + state.short.left) ≤ state.main.stepsLeft size + state.short.left
    omega

private theorem stepsLeft_of_reach (started : startUp cfg base created input = some start)
    (reach : Reach (turnStep est cfg) (fun _ _ => True) start state)
    (ended : state.clientRunning = false) {last : State × Nat}
    (later : Reach (monitored (turnStep est cfg) tally) (fun _ _ => True) (state, 0) last) :
    last.1.clientRunning = false ∧
      last.2 + last.1.stepsLeft start.fleet.nodes.length ≤
        state.stepsLeft start.fleet.nodes.length := by
  induction later with
  | start => exact ⟨ended, Nat.le_of_eq (Nat.zero_add _)⟩
  | @next before last turn reached _permitted taken ih =>
      obtain ⟨stepped, counted⟩ := monitored_eq_some.mp taken
      obtain ⟨gone, closer⟩ := turn_stepsLeft
        (reach_winding started (reach.trans reached.unmonitored)) ih.1 stepped
      refine ⟨gone, ?_⟩
      have turns : last.2 = before.2 + if turn.progresses before.1 then 1 else 0 := by
        rw [counted]
        unfold tally
        split <;> rfl
      have before := ih.2
      omega

/-- Nothing is left to do, except to wait for a thread that raised. -/
def State.over (state : State) : Prop :=
  (state.short = .exited ∨ state.short = .raised) ∧
    (state.main = .done ∨ state.main = .raised ∨
      state.main = .finalWait ∧ state.short = .raised)

private theorem over_or_progresses (winding : Winding size state) :
    (∀ input, ∃ next, Act.progresses state (.main input) = true ∧
        step est cfg state (.main input) = some next) ∨
      (∀ input, ∃ next, step est cfg state (.short input) = some next) ∨ state.over := by
  by_cases finished : state.short = .exited ∨ state.short = .raised
  · by_cases ended : state.main = .done ∨ state.main = .raised
    · exact .inr (.inr ⟨finished, ended.elim .inl fun raised => .inr (.inl raised)⟩)
    · cases waits : state.waits with
      | false =>
          refine .inl fun input => ?_
          have goes : mainStep est cfg input state ≠ none := fun none =>
            ended ((mainStep_eq_none_iff est cfg input state).mp none)
          obtain ⟨next, taken⟩ := Option.ne_none_iff_exists'.mp goes
          refine ⟨next, ?_, taken⟩
          simp only [Act.progresses, waits, Bool.not_false]
      | true =>
          unfold State.waits at waits
          rw [Bool.and_eq_true, decide_eq_true_eq] at waits
          refine .inr (.inr ⟨finished, .inr (.inr ⟨waits.1, ?_⟩)⟩)
          rcases finished with exited | raised
          · have gone := winding.gone exited
            rw [waits.2] at gone
            cases gone
          · exact raised
  · refine .inr (.inl fun input => ?_)
    change ∃ next, shortStep cfg state input = some next
    unfold shortStep
    rw [not_or] at finished
    cases here : state.short with
    | exited => exact absurd here finished.1
    | raised => exact absurd here finished.2
    | _ => exact ⟨_, rfl⟩

/-- Types that are filed nowhere are missing, but none is listed twice. -/
private theorem startUp_nodes (started : startUp cfg base created input = some start) :
    start.fleet.nodes.length ≤ created.length := by
  obtain ⟨fleet, taken, launched⟩ := startUp_launched started
  have pools := getWikiNodeInfo_pools created
  have onD := congrArg List.length pools.onD
  have bur := pools.burSub.length_le
  rw [List.length_map] at onD bur
  have whole := List.length_eq_length_filter_add (l := created) (fun info => info.burstable)
  obtain ⟨burCost, ondCost, lists⟩ := launched.lists
  obtain ⟨_fits, rfl⟩ := setStartUpNodes_eq_some.mp taken
  rw [lists]
  simp only [Fleet.nodes, startedUp, pools.currOnD, pools.currBur, pools.sorting, pools.pending,
    pools.stopped, List.length_append, List.length_map, List.length_take, List.length_drop,
    List.length_nil, List.nil_append]
  omega

/-- However the threads take turns after the client is done, and however often
a call has to ask again: they take at most eight steps for each instance and 23
more, turns of a wait and repeated questions apart; and as long as it is not
over one of them can go on, as soon as the call it is in returns. -/
theorem experiment_winds_up (est : Estimator) (cfg : Config) (base : UpstreamBlock)
    (created : List Info) (input : StartInput) (start state after : State) (turns : Nat)
    (started : startUp cfg base created input = some start)
    (reach : Reach (turnStep est cfg) (fun _ _ => True) start state)
    (ended : state.clientRunning = false)
    (later : Reach (monitored (turnStep est cfg) tally) (fun _ _ => True) (state, 0)
      (after, turns)) :
    turns ≤ 8 * created.length + 23 ∧
      ((∀ input, ∃ next, Act.progresses after (.main input) = true ∧
          step est cfg after (.main input) = some next) ∨
        (∀ input, ∃ next, step est cfg after (.short input) = some next) ∨ after.over) := by
  have bound := (stepsLeft_of_reach started reach ended later).2
  have first := (reach_winding started reach).counter
  have main := MainPc.stepsLeft_le first
  have short := ShortPc.left_le state.short
  have size := startUp_nodes started
  refine ⟨?_, over_or_progresses (reach_winding started (reach.trans later.unmonitored))⟩
  unfold State.stepsLeft at bound
  dsimp only at bound
  omega

def sampleBeginning : List Turn :=
  .acts (sampleShort .empty) :: List.replicate 11 (.acts sampleMain) ++ [.acts .clientDone]

/-- The main thread finishes its iteration and waits for the other thread, which
is answered `null` twice; an instance is not running at once. -/
def sampleEnding : List Turn :=
  [.nullLatency, .otherState, .nullLatency] ++ List.replicate 9 (.acts sampleMain) ++
    List.replicate 5 (.acts (sampleShort .empty)) ++ List.replicate 2 (.acts sampleMain)

theorem experiment_winds_up_sample :
    ∃ start state after turns, sampleStart sampleConfig = some start ∧
      run (guarded (turnStep (policies sampleConfig) sampleConfig) (fun _ _ => True)) start
        sampleBeginning = some state ∧
      run (guarded (monitored (turnStep (policies sampleConfig) sampleConfig) tally)
        (fun _ _ => True)) (state, 0) sampleEnding = some (after, turns) ∧
      after.main = .done ∧ turns = 15 ∧ turns ≤ 47 := by
  have facts : ((sampleStart sampleConfig).bind fun start =>
      (run (guarded (turnStep (policies sampleConfig) sampleConfig) (fun _ _ => True)) start
        sampleBeginning).bind fun state =>
          (run (guarded (monitored (turnStep (policies sampleConfig) sampleConfig) tally)
            (fun _ _ => True)) (state, 0) sampleEnding).map fun last =>
              (state.clientRunning, last.1.main, last.2)) = some (false, .done, 15) := by
    decide +kernel
  obtain ⟨start, started, ran⟩ := Option.bind_eq_some_iff.mp facts
  obtain ⟨state, reached, rest⟩ := Option.bind_eq_some_iff.mp ran
  obtain ⟨⟨after, turns⟩, later, values⟩ := Option.map_eq_some_iff.mp rest
  obtain ⟨ended, lasts⟩ := Prod.mk.inj values
  obtain ⟨main, counted⟩ := Prod.mk.inj lasts
  have bound := (experiment_winds_up (policies sampleConfig) sampleConfig ⟨"least_conn", []⟩
    sampleCreated ⟨true, true, some 0, fun _ => 0⟩ start state after turns started
    (reach_of_guarded_run reached) ended (reach_of_guarded_run later)).1
  exact ⟨start, state, after, turns, started, reached, later, main, counted, bound⟩

end Runs

end AutoBurst.Controller
