/-
The short-term thread survives as long as a burstable node is running.

`latency_optimizer` reads `bur[0]` without looking whether there is one. With
no burstable node at the start, or none asked for later, the first numeric
latency ends the thread, its flag is never cleared and the main thread waits
for ever.
-/

import AutoBurst.Controller.Snapshot
import AutoBurst.Lib.Dict

namespace AutoBurst.Controller

open Runs

/-- The short-term thread gets a number or nothing as latency, and runs its
locked body between two statements of the main loop, not within a sort. -/
def Sequential (state : State) : Act → Prop
  | .main _input => True
  | .short input => input.latency ≠ .malformed ∧
      (state.short.isLocked = true → state.main.isSorting = false)
  | .clientDone => True

instance (state : State) (action : Act) : Decidable (Sequential state action) :=
  match action with
  | .main _input => inferInstanceAs (Decidable True)
  | .short _input => inferInstanceAs (Decidable (_ ∧ (_ → _)))
  | .clientDone => inferInstanceAs (Decidable True)

def AsksForOne (est : Estimator) (state : State) : Act → Prop
  | .main input => ∀ b, state.asks est input b → 1 ≤ b
  | .short _input => True
  | .clientDone => True

def KeepsOne (est : Estimator) (state : State) (action : Act) : Prop :=
  Sequential state action ∧ AsksForOne est state action

structure Staffed (state : State) : Prop where
  running : state.main.isSorting = false → state.fleet.currBur ≠ []
  sorting : state.main.isSorting = true → state.fleet.sorting ≠ []
  target : ∀ b, state.main.target = some b → 1 ≤ b
  latency : state.short ≠ .locked .malformed
  alive : state.short ≠ .raised
  exited : state.short = .exited → state.shortTermThreadRunning = false

/-! ### Burstable nodes in use -/

section Moves

variable {cfg : Config} {risks : Risk → Prop} {first last : Fleet}

theorem moves_running (moves : Moves cfg risks first last) (kept : ¬risks .beginSort)
    (full : ¬risks .drainBur) (running : first.currBur ≠ []) : last.currBur ≠ [] := by
  refine moves_invariant moves (fun _risk risky => risky) (fun fleet => fleet.currBur ≠ [])
    ?_ running
  intro before after move running
  cases move with
  | @touch currBur pending touched _draining =>
      intro empty
      have none : currBur = [] := empty
      rw [none] at touched
      exact running (List.forall₂_nil_right_iff.mp touched)
  | reactivate _head => exact List.append_ne_nil_of_right_ne_nil _ (List.cons_ne_nil _ _)
  | startBur _head _opened => exact List.append_ne_nil_of_right_ne_nil _ (List.cons_ne_nil _ _)
  | beginSort _idle risk => exact absurd risk kept
  | endSort empty => exact absurd empty running
  | drainBur _head risk => exact absurd risk full
  | _ => exact running

/-- Scaling down to a positive count leaves a node. -/
theorem drainBur_running (b : Int) (positive : 1 ≤ b) (nodes : List Node) (fleet : Fleet)
    (whole : fleet.currBur = nodes) (running : nodes ≠ []) :
    (Fleet.drainBur b nodes fleet).currBur ≠ [] := by
  induction nodes generalizing fleet with
  | nil => exact absurd rfl running
  | cons node rest ih =>
      unfold Fleet.drainBur
      split
      · rename_i many
        apply ih _ rfl
        intro empty
        rw [empty] at many
        simp only [List.length_cons, List.length_nil] at many
        omega
      · rw [whole]
        exact running

end Moves

/-! ### Steps -/

section Steps

variable {est : Estimator} {cfg : Config} {before after : State}

/-- The main thread thins out `curr_bur` at three points only: it begins a sort,
ends it, and drains down to the target. -/
private theorem mainStep_lists {input : MainInput} (staffed : Staffed before)
    (taken : mainStep est cfg input before = some after) (held : before.SortHeld) :
    (after.main.isSorting = false → after.fleet.currBur ≠ []) ∧
      (after.main.isSorting = true → after.fleet.sorting ≠ []) := by
  have effect := mainStep_effect taken held
  cases here : before.main with
  | sortStart b =>
      have running := staffed.running (by rw [here]; rfl)
      unfold mainStep at taken
      rw [here] at taken
      cases taken
      exact ⟨nofun, fun _sorting => running⟩
  | sorting b =>
      have held := staffed.sorting (by rw [here]; rfl)
      unfold mainStep at taken
      rw [here] at taken
      cases taken
      refine ⟨fun _plain empty => held ?_, nofun⟩
      exact List.Perm.eq_nil (empty ▸ (sortAscending_perm Node.creditBalance _).symm)
  | drainPick b =>
      have running := staffed.running (by rw [here]; rfl)
      have positive := staffed.target b (by rw [here]; rfl)
      unfold mainStep at taken
      rw [here] at taken
      cases taken
      exact ⟨fun _plain => drainBur_running b positive _ _ rfl running, nofun⟩
  | _ =>
      have running := staffed.running (by rw [here]; rfl)
      refine ⟨fun _plain => moves_running effect.moves ?_ ?_ running, fun sorting => ?_⟩
      · intro risk
        obtain ⟨b, there⟩ := risk
        rw [here] at there
        cases there
      · intro risk
        obtain ⟨b, there⟩ := risk
        rw [here] at there
        cases there
      · obtain ⟨b, there⟩ := effect.sorting sorting
        rw [here] at there
        cases there

theorem Staffed.of_mainStep {input : MainInput} (staffed : Staffed before)
    (taken : mainStep est cfg input before = some after) (held : before.SortHeld)
    (permitted : KeepsOne est before (.main input)) : Staffed after := by
  have effect := mainStep_effect taken held
  have lists := mainStep_lists staffed taken held
  refine ⟨lists.1, lists.2, ?_, ?_, ?_, ?_⟩
  · intro b aims
    rcases effect.target b aims with earlier | asked
    · exact staffed.target b earlier
    · exact permitted.2 b asked
  · rw [effect.short]
    exact staffed.latency
  · rw [effect.short]
    exact staffed.alive
  · rw [effect.short, effect.shortTermThreadRunning]
    exact staffed.exited

/-- With a burstable node to weigh, only a malformed latency raises. -/
theorem latencyOptimizer_raised (cfg : Config) (optimizer : OptimizerState) {bur : List Node}
    {latency : Latency} (pending : List Node) (running : bur ≠ [])
    (readable : latency ≠ .malformed) :
    (latencyOptimizer cfg optimizer bur latency pending).raised = false := by
  cases latency with
  | empty => rfl
  | malformed => exact absurd rfl readable
  | numeric value =>
      cases bur with
      | nil => exact absurd rfl running
      | cons first rest => rfl

theorem Staffed.shortLocked_short {latency : Latency} (staffed : Staffed before) (cfg : Config)
    (sent : Bool) (here : before.short = .locked latency)
    (plain : before.main.isSorting = false) :
    (shortLocked cfg before latency sent).short = .sleep := by
  have readable : latency ≠ .malformed := by
    intro bad
    rw [bad] at here
    exact staffed.latency here
  have finished := latencyOptimizer_raised cfg before.optimizer
    before.fleet.stoppedInstancesPending (staffed.running plain) readable
  unfold shortLocked
  dsimp only
  rw [if_neg (ne_true_of_eq_false finished)]

private theorem shortStep_lists (staffed : Staffed before)
    (effect : ShortEffect cfg before after) :
    (after.main.isSorting = false → after.fleet.currBur ≠ []) ∧
      (after.main.isSorting = true → after.fleet.sorting ≠ []) := by
  obtain ⟨currBur, pending, touched, _draining, same⟩ := effect.touched
  rw [effect.main, same]
  refine ⟨?_, staffed.sorting⟩
  intro plain empty
  have none : currBur = [] := empty
  rw [none] at touched
  exact staffed.running plain (List.forall₂_nil_right_iff.mp touched)

theorem Staffed.of_shortStep {input : ShortInput} (staffed : Staffed before)
    (taken : shortStep cfg before input = some after)
    (permitted : KeepsOne est before (.short input)) : Staffed after := by
  have effect := shortStep_effect taken
  obtain ⟨running, sorting⟩ := shortStep_lists staffed effect
  have target : ∀ b, after.main.target = some b → 1 ≤ b := by
    rw [effect.main]
    exact staffed.target
  unfold shortStep at taken
  cases here : before.short <;> rw [here] at taken
  case check =>
    cases taken
    by_cases client : before.clientRunning = true
    · rw [if_pos client] at running sorting target ⊢
      exact ⟨running, sorting, target, nofun, nofun, nofun⟩
    · rw [if_neg client] at running sorting target ⊢
      exact ⟨running, sorting, target, nofun, nofun, nofun⟩
  case latency =>
    cases taken
    exact ⟨running, sorting, target, fun bad => permitted.1.1 (ShortPc.locked.inj bad), nofun,
      nofun⟩
  case locked latency =>
    have slept := staffed.shortLocked_short cfg input.sent here
      (permitted.1.2 (by rw [here]; rfl))
    cases taken
    refine ⟨running, sorting, target, ?_, ?_, ?_⟩
    · rw [slept]
      exact nofun
    · rw [slept]
      exact nofun
    · rw [slept]
      exact nofun
  case sleep =>
    cases taken
    exact ⟨running, sorting, target, nofun, nofun, nofun⟩
  case leave =>
    cases taken
    exact ⟨running, sorting, target, nofun, nofun, fun _exited => rfl⟩
  case exited => cases taken
  case raised => cases taken

theorem Staffed.of_step {action : Act} (staffed : Staffed before)
    (taken : step est cfg before action = some after) (held : before.SortHeld)
    (permitted : KeepsOne est before action) : Staffed after := by
  cases action with
  | main input => exact staffed.of_mainStep taken held permitted
  | short input => exact staffed.of_shortStep taken permitted
  | clientDone =>
      cases taken
      exact ⟨staffed.running, staffed.sorting, staffed.target, staffed.latency, staffed.alive,
        staffed.exited⟩

end Steps

/-! ### Leaving the loop -/

def ShortPc.left : ShortPc → Nat
  | .latency => 5
  | .locked _latency => 4
  | .sleep => 3
  | .check => 2
  | .leave => 1
  | .exited => 0
  | .raised => 0

section Leaving

variable {state : State}

private theorem shortStep_left (cfg : Config) (input : ShortInput) {left : Nat}
    (staffed : Staffed state) (ended : state.clientRunning = false)
    (plain : state.main.isSorting = false) (more : state.short.left = left + 1) :
    ∃ after, shortStep cfg state input = some after ∧ after.short.left = left := by
  unfold shortStep
  cases here : state.short <;> rw [here] at more
  case check =>
    refine ⟨_, rfl, ?_⟩
    rw [ended]
    exact Nat.succ.inj more
  case latency => exact ⟨_, rfl, Nat.succ.inj more⟩
  case locked latency =>
    refine ⟨_, rfl, ?_⟩
    rw [staffed.shortLocked_short cfg input.sent here plain]
    exact Nat.succ.inj more
  case sleep => exact ⟨_, rfl, Nat.succ.inj more⟩
  case leave => exact ⟨_, rfl, Nat.succ.inj more⟩
  case exited => cases more
  case raised => cases more

/-- Left to itself, with whatever latencies, the thread clears its flag. -/
theorem Staffed.leaves (est : Estimator) (cfg : Config) (staffed : Staffed state)
    (ended : state.clientRunning = false) (plain : state.main.isSorting = false)
    (inputs : List ShortInput) (count : inputs.length = state.short.left)
    (readable : ∀ input ∈ inputs, input.latency ≠ .malformed) :
    ∃ after, run (step est cfg) state (inputs.map Act.short) = some after ∧
      after.shortTermThreadRunning = false := by
  induction inputs generalizing state with
  | nil =>
      refine ⟨state, rfl, staffed.exited ?_⟩
      cases here : state.short with
      | exited => rfl
      | raised => exact absurd here staffed.alive
      | _ =>
          rw [here] at count
          cases count
  | cons input rest ih =>
      obtain ⟨now, later⟩ := List.forall_mem_cons.mp readable
      obtain ⟨middle, taken, left⟩ := shortStep_left cfg input staffed ended plain
        count.symm
      have effect := shortStep_effect taken
      have sequential : KeepsOne est state (.short input) := ⟨⟨now, fun _locked => plain⟩, trivial⟩
      obtain ⟨after, ran, cleared⟩ := ih (staffed.of_shortStep taken sequential)
        (by rw [effect.clientRunning, ended]) (by rw [effect.main, plain]) left.symm later
      refine ⟨after, ?_, cleared⟩
      rw [List.map_cons, run]
      exact Option.bind_eq_some_iff.mpr ⟨middle, taken, ran⟩

end Leaving

/-! ### Runs -/

section Runs

variable {est : Estimator} {cfg : Config} {base : UpstreamBlock} {created : List Info}
  {input : StartInput} {start state : State}

private theorem startUp_staffed (burNodes : 1 ≤ cfg.burNodes)
    (started : startUp cfg base created input = some start) : Staffed start := by
  obtain ⟨fleet, taken, launched⟩ := startUp_launched started
  have running : fleet.currBur ≠ [] := by
    obtain ⟨fits, rfl⟩ := setStartUpNodes_eq_some.mp taken
    intro empty
    have length := congrArg List.length empty
    simp only [startedUp, List.length_append, List.length_take, List.length_nil] at length
    omega
  obtain ⟨burCost, ondCost, lists⟩ := launched.lists
  refine ⟨?_, ?_, ?_, ?_, ?_, ?_⟩
  · intro _plain
    rw [lists]
    exact fun empty => running (List.map_eq_nil_iff.mp empty)
  · rw [launched.main]
    intro sorting
    cases sorting
  · rw [launched.main]
    intro b target
    cases target
  · rw [launched.short]
    intro malformed
    cases malformed
  · rw [launched.short]
    intro raised
    cases raised
  · rw [launched.short]
    intro exited
    cases exited

theorem reach_staffed (burNodes : 1 ≤ cfg.burNodes)
    (started : startUp cfg base created input = some start)
    (reach : Reach (step est cfg) (KeepsOne est) start state) : Staffed state := by
  induction reach with
  | start => exact startUp_staffed burNodes started
  | next action reached permitted taken ih =>
      exact ih.of_step taken (reach_sortHeld started reached) permitted

/-- With a burstable node at the start and at least one asked for in every
iteration, the short-term thread never raises, its calls complete, and once the
client is done it clears its flag within five steps of its own. -/
theorem shortTerm_never_raises (est : Estimator) (cfg : Config) (base : UpstreamBlock)
    (created : List Info) (input : StartInput) (start state : State)
    (burNodes : 1 ≤ cfg.burNodes) (started : startUp cfg base created input = some start)
    (reach : Reach (step est cfg) (KeepsOne est) start state) :
    state.short ≠ .raised ∧
    (∀ latency, latency ≠ .malformed → state.main.isSorting = false →
      (latencyOptimizer cfg state.optimizer state.fleet.currBur latency
        state.fleet.stoppedInstancesPending).raised = false) ∧
    (state.clientRunning = false → state.main.isSorting = false →
      ∀ inputs : List ShortInput, inputs.length = state.short.left →
        (∀ input ∈ inputs, input.latency ≠ .malformed) →
        ∃ after, run (step est cfg) state (inputs.map Act.short) = some after ∧
          after.shortTermThreadRunning = false) := by
  have staffed := reach_staffed burNodes started reach
  refine ⟨staffed.alive, ?_, ?_⟩
  · intro latency readable plain
    exact latencyOptimizer_raised cfg state.optimizer _ (staffed.running plain) readable
  · intro ended plain inputs count readable
    exact staffed.leaves est cfg ended plain inputs count readable

/-! ### Tables without a column below one -/

def PositiveTable (table : ThroughputTable) : Prop :=
  ∀ onD row, table.lookup onD = some row →
    row.lookup "0" = none ∧ ∀ m, largestCount row = some m → 1 ≤ m

theorem resourceEstimator_positive (positive : PositiveTable cfg.throughputTable)
    {estimator next : EstimatorState} {call : EstimatorCall} {od b : Int}
    (answer : resourceEstimator cfg estimator call = some (next, od, b)) : 1 ≤ b := by
  unfold resourceEstimator at answer
  dsimp only at answer
  obtain ⟨found, lookup, same⟩ := Option.map_eq_some_iff.mp answer
  obtain ⟨row, present, _largest⟩ := Option.bind_eq_some_iff.mp lookup
  obtain ⟨unmeasured, largest⟩ := positive _ row present
  have least : 1 ≤ found := by
    refine one_le_findNumberOfBurstable present largest ?_ lookup
    intro value cell
    rw [unmeasured] at cell
    cases cell
  obtain ⟨_next, _od, asked⟩ := Prod.mk.inj same |>.imp id Prod.mk.inj
  rw [if_neg (by omega)] at asked
  omega

/-- For such a table the source's estimator asks for a burstable node anyway. -/
theorem keepsOne_of_table (positive : PositiveTable cfg.throughputTable) {action : Act}
    (sequential : Sequential state action) : KeepsOne (policies cfg) state action := by
  refine ⟨sequential, ?_⟩
  cases action with
  | main input =>
      intro b asked
      obtain ⟨total, throughput, next, od, _here, answer⟩ := asked
      exact resourceEstimator_positive positive answer
  | short input => trivial
  | clientDone => trivial

theorem shortTerm_alive_of_table (positive : PositiveTable cfg.throughputTable)
    (burNodes : 1 ≤ cfg.burNodes) (started : startUp cfg base created input = some start)
    (reach : Reach (step (policies cfg) cfg) Sequential start state) : state.short ≠ .raised :=
  (reach_staffed burNodes started
    (reach.mono fun _state _action sequential => keepsOne_of_table positive sequential)).alive

/-! ### A dead thread -/

/-- A thread that has raised with its flag set leaves the flag set for ever. -/
theorem raised_stays {later : State} (started : startUp cfg base created input = some start)
    (reach : Reach (step est cfg) (fun _ _ => True) start state)
    (dead : state.short = .raised ∧ state.shortTermThreadRunning = true)
    (further : Reach (step est cfg) (fun _ _ => True) state later) :
    later.short = .raised ∧ later.shortTermThreadRunning = true := by
  induction further with
  | start => exact dead
  | next action reached _permitted taken ih =>
      cases action with
      | main input =>
          have effect := mainStep_effect taken (reach_sortHeld started (reach.trans reached))
          rw [effect.short, effect.shortTermThreadRunning]
          exact ih
      | short input =>
          change shortStep cfg _ input = _ at taken
          unfold shortStep at taken
          rw [ih.1] at taken
          cases taken
      | clientDone =>
          cases taken
          exact ih

end Runs

def sampleIdle : Config := { sampleConfig with burNodes := 0 }

/-- No burstable node and a latency of 8: the thread raises, and when the client
is done the main thread waits for a flag that nothing will clear. -/
theorem shortTerm_raises :
    ∃ start state, sampleStart sampleIdle = some start ∧
      Reach (step (policies sampleIdle) sampleIdle) (fun _ _ => True) start state ∧
      state.short = .raised ∧ state.clientRunning = false ∧ state.main = .finalWait ∧
      ∀ later, Reach (step (policies sampleIdle) sampleIdle) (fun _ _ => True) state later →
        later.shortTermThreadRunning = true := by
  have seen : (sampleRun sampleIdle (fun _ _ => True)
      (List.replicate 3 (sampleShort (.numeric 8)) ++ [.clientDone, sampleMain])).map (fun state =>
        (state.short, state.clientRunning, state.main, state.shortTermThreadRunning)) =
      some (.raised, false, .finalWait, true) := by decide +kernel
  obtain ⟨state, ran, same⟩ := Option.map_eq_some_iff.mp seen
  simp only [Prod.mk.injEq] at same
  obtain ⟨short, client, main, flag⟩ := same
  obtain ⟨start, started, reach⟩ := sampleRun_reach ran
  refine ⟨start, state, started, reach, short, client, main, ?_⟩
  intro later further
  exact (raised_stays started reach ⟨short, flag⟩ further).2

private theorem sampleTable_positive : PositiveTable sampleConfig.throughputTable := by
  intro onD row found
  have rows : row = [("1", some 100), ("2", some 200)] ∨
      row = [("1", some 300), ("2", some 400)] := by
    have member := Dict.mem_of_lookup found
    simp only [sampleConfig, List.mem_cons, Prod.mk.injEq, List.not_mem_nil, or_false] at member
    exact member.imp And.right And.right
  have largest : ∀ count, some (2 : Int) = some count → 1 ≤ count := by
    intro count same
    rw [← Option.some.inj same]
    decide
  rcases rows with rfl | rfl
  · refine ⟨by decide, ?_⟩
    rw [show largestCount [("1", some 100), ("2", some 200)] = some 2 by decide]
    exact largest
  · refine ⟨by decide, ?_⟩
    rw [show largestCount [("1", some 300), ("2", some 400)] = some 2 by decide]
    exact largest

/-- With two burstable nodes the same latency only changes their weights. -/
theorem shortTerm_never_raises_sample :
    ∃ start state, sampleStart sampleConfig = some start ∧
      run (guarded (step (policies sampleConfig) sampleConfig) Sequential) start
        (List.replicate 3 (sampleShort (.numeric 8)) ++ [.clientDone]) = some state ∧
      state.fleet.currBur.map Node.weight = [999, 999] ∧
      ∃ after, run (step (policies sampleConfig) sampleConfig) state
          ((List.replicate 3 ⟨.empty, true⟩).map Act.short) = some after ∧
        after.shortTermThreadRunning = false := by
  have seen : ((sampleStart sampleConfig).bind fun start =>
      (run (guarded (step (policies sampleConfig) sampleConfig) Sequential) start
        (List.replicate 3 (sampleShort (.numeric 8)) ++ [.clientDone])).map fun state =>
          (state.fleet.currBur.map Node.weight, state.clientRunning, state.main,
            state.short.left)) =
      some ([999, 999], false, .loopHead, 3) := by decide +kernel
  obtain ⟨start, started, next⟩ := Option.bind_eq_some_iff.mp seen
  obtain ⟨state, ran, same⟩ := Option.map_eq_some_iff.mp next
  simp only [Prod.mk.injEq] at same
  obtain ⟨weights, client, main, left⟩ := same
  have reach := (reach_of_guarded_run ran).mono fun _state _action sequential =>
    keepsOne_of_table sampleTable_positive sequential
  refine ⟨start, state, started, ran, weights, ?_⟩
  refine (shortTerm_never_raises (policies sampleConfig) sampleConfig ⟨"least_conn", []⟩
    sampleCreated ⟨true, true, some 0, fun _ => 0⟩ start state (by decide) started reach).2.2 client
    (by rw [main]; rfl) (List.replicate 3 ⟨.empty, true⟩) (by rw [left]; rfl) ?_
  intro input member
  rw [List.eq_of_mem_replicate member]
  exact nofun

end AutoBurst.Controller
