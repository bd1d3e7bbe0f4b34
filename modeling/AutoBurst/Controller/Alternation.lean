/-
Start and stop commands of one instance, in every order of the two threads'
steps: they alternate, and each waits for the effect of the one before it.

The waits of the main loop name instances by their positions in lists that also
receive nodes from elsewhere. What each instance is doing is a function of the
commands issued so far, and every list holds instances of one phase, the list
that a loop is working through split at the loop's index.
-/

import AutoBurst.Controller.Deployment

namespace AutoBurst.Controller

open Runs

/-! ### The phases of an instance -/

inductive Phase
  | running
  | stopping
  | stopped
  | starting
deriving DecidableEq

/-- What the commands issued so far, newest first, leave an instance doing. A
created instance runs. -/
def phase (id : String) : List Command → Phase
  | [] => .running
  | .stopInstanceNonBlocking other :: earlier => if other = id then .stopping else phase id earlier
  | .startInstance other :: earlier => if other = id then .starting else phase id earlier
  | .blockStopped other :: earlier =>
      if other = id ∧ phase id earlier = .stopping then .stopped else phase id earlier
  | .blockRunning other :: earlier =>
      if other = id ∧ phase id earlier = .starting then .running else phase id earlier

def Command.target : Command → String
  | .startInstance id => id
  | .stopInstanceNonBlocking id => id
  | .blockRunning id => id
  | .blockStopped id => id

def Command.Allowed (log : List Command) : Command → Prop
  | .stopInstanceNonBlocking id => phase id log = .running
  | .startInstance id => phase id log = .stopped
  | .blockStopped _id => True
  | .blockRunning _id => True

def Ordered : List Command → Prop
  | [] => True
  | command :: earlier => command.Allowed earlier ∧ Ordered earlier

theorem phase_other {id : String} (command : Command) (log : List Command)
    (other : command.target ≠ id) : phase id (command :: log) = phase id log := by
  cases command with
  | startInstance target => exact if_neg other
  | stopInstanceNonBlocking target => exact if_neg other
  | blockRunning target => exact if_neg fun both => other both.1
  | blockStopped target => exact if_neg fun both => other both.1

theorem phase_stop (id : String) (log : List Command) :
    phase id (.stopInstanceNonBlocking id :: log) = .stopping :=
  if_pos rfl

theorem phase_start (id : String) (log : List Command) :
    phase id (.startInstance id :: log) = .starting :=
  if_pos rfl

theorem phase_blockStopped {id : String} {log : List Command}
    (stopping : phase id log = .stopping) :
    phase id (.blockStopped id :: log) = .stopped :=
  if_pos ⟨rfl, stopping⟩

theorem phase_blockRunning {id : String} {log : List Command}
    (up : phase id log = .running ∨ phase id log = .starting) :
    phase id (.blockRunning id :: log) = .running := by
  unfold phase
  rcases up with running | starting
  · rw [running]
    exact if_neg fun both => nomatch both.2
  · exact if_pos ⟨rfl, starting⟩

theorem ordered_suffix {recent older : List Command} (ordered : Ordered (recent ++ older)) :
    Ordered older := by
  induction recent with
  | nil => exact ordered
  | cons command recent ih => exact ih ordered.2

/-! ### What a phase says about the log -/

/-- `seen` has occurred since the last `mark`, the oldest command coming first. -/
def SeenSince (mark seen : Command) (history : List Command) : Prop :=
  ∃ older recent, history = older ++ mark :: recent ∧ mark ∉ recent ∧ seen ∈ recent

def Command.switches (id : String) : Command → Bool
  | .startInstance other => decide (other = id)
  | .stopInstanceNonBlocking other => decide (other = id)
  | .blockRunning _other => false
  | .blockStopped _other => false

/-- The commands for one instance in the order they were issued: stops and
starts in turn, a stop first; every start after the instance was seen stopped
since its last stop, every later stop after it was seen running since its last
start. -/
structure Alternates (id : String) (history : List Command) : Prop where
  turns : ∀ k command, (history.filter (Command.switches id))[k]? = some command →
    command = if k % 2 = 0 then .stopInstanceNonBlocking id else .startInstance id
  starts : ∀ before after, history = before ++ .startInstance id :: after →
    SeenSince (.stopInstanceNonBlocking id) (.blockStopped id) before
  stops : ∀ before after, history = before ++ .stopInstanceNonBlocking id :: after →
    .startInstance id ∈ before → SeenSince (.startInstance id) (.blockRunning id) before

section Log

variable {id : String} {mark seen command : Command} {history log : List Command}

theorem SeenSince.append (since : SeenSince mark seen history) (other : command ≠ mark) :
    SeenSince mark seen (history ++ [command]) := by
  obtain ⟨older, recent, rfl, last, found⟩ := since
  refine ⟨older, recent ++ [command], by simp, ?_, List.mem_append_left _ found⟩
  intro member
  rcases List.mem_append.mp member with earlier | final
  · exact last earlier
  · exact other (List.mem_singleton.mp final).symm

/-- A command after its mark has been seen since the last one. -/
theorem seenSince_append (issued : mark ∈ history) (other : seen ≠ mark) :
    SeenSince mark seen (history ++ [seen]) := by
  obtain ⟨recent, older, same, last⟩ :=
    List.eq_append_cons_of_mem (List.mem_reverse.mpr issued)
  have split := congrArg List.reverse same
  rw [List.reverse_reverse, List.reverse_append, List.reverse_cons, List.append_assoc,
    List.singleton_append] at split
  refine ⟨older.reverse, recent.reverse ++ [seen], ?_, ?_, by simp⟩
  · rw [split, List.append_assoc, List.cons_append]
  · intro member
    rcases List.mem_append.mp member with earlier | final
    · exact last (List.mem_reverse.mp earlier)
    · exact other (List.mem_singleton.mp final).symm

/-- The four changes of phase; any other command leaves the phase and is no
switch. -/
theorem phase_cons (id : String) (command : Command) (log : List Command) :
    (command = .stopInstanceNonBlocking id ∧ phase id (command :: log) = .stopping) ∨
    (command = .startInstance id ∧ phase id (command :: log) = .starting) ∨
    (command = .blockStopped id ∧ phase id log = .stopping ∧
      phase id (command :: log) = .stopped) ∨
    (command = .blockRunning id ∧ phase id log = .starting ∧
      phase id (command :: log) = .running) ∨
    (command.switches id = false ∧ phase id (command :: log) = phase id log) := by
  by_cases same : command.target = id
  · subst same
    cases command with
    | startInstance target => exact .inr (.inl ⟨rfl, phase_start _ log⟩)
    | stopInstanceNonBlocking target => exact .inl ⟨rfl, phase_stop _ log⟩
    | blockRunning target =>
        by_cases starting : phase target log = .starting
        · exact .inr (.inr (.inr (.inl ⟨rfl, starting, phase_blockRunning (.inr starting)⟩)))
        · exact .inr (.inr (.inr (.inr ⟨rfl, if_neg fun both => starting both.2⟩)))
    | blockStopped target =>
        by_cases stopping : phase target log = .stopping
        · exact .inr (.inr (.inl ⟨rfl, stopping, phase_blockStopped stopping⟩))
        · exact .inr (.inr (.inr (.inr ⟨rfl, if_neg fun both => stopping both.2⟩)))
  · refine .inr (.inr (.inr (.inr ⟨?_, phase_other command log same⟩)))
    cases command with
    | startInstance target => exact decide_eq_false same
    | stopInstanceNonBlocking target => exact decide_eq_false same
    | blockRunning target => rfl
    | blockStopped target => rfl

theorem ne_of_not_switches (switch : Command) (quiet : command.switches id = false)
    (switches : switch.switches id = true) : command ≠ switch := by
  rintro rfl
  rw [quiet] at switches
  cases switches

structure Recorded (id : String) (log : List Command) : Prop where
  stopping : phase id log = .stopping → .stopInstanceNonBlocking id ∈ log
  starting : phase id log = .starting → .startInstance id ∈ log
  stopped : phase id log = .stopped →
    SeenSince (.stopInstanceNonBlocking id) (.blockStopped id) log.reverse
  running : phase id log = .running → .startInstance id ∈ log →
    SeenSince (.startInstance id) (.blockRunning id) log.reverse

theorem recorded (id : String) (log : List Command) : Recorded id log := by
  induction log with
  | nil =>
      exact ⟨nofun, nofun, nofun, fun _running impossible => absurd impossible List.not_mem_nil⟩
  | cons command earlier ih =>
      rcases phase_cons id command earlier with stop | start | stopped | running | same
      · obtain ⟨rfl, now⟩ := stop
        constructor <;> rw [now]
        · exact fun _now => List.mem_cons_self
        all_goals exact nofun
      · obtain ⟨rfl, now⟩ := start
        constructor <;> rw [now]
        · exact nofun
        · exact fun _now => List.mem_cons_self
        all_goals exact nofun
      · obtain ⟨rfl, before, now⟩ := stopped
        have issued := List.mem_reverse.mpr (ih.stopping before)
        constructor <;> rw [now]
        · exact nofun
        · exact nofun
        · rw [List.reverse_cons]
          exact fun _now => seenSince_append issued nofun
        · exact nofun
      · obtain ⟨rfl, before, now⟩ := running
        have issued := List.mem_reverse.mpr (ih.starting before)
        constructor <;> rw [now]
        · exact nofun
        · exact nofun
        · exact nofun
        · rw [List.reverse_cons]
          exact fun _now _member => seenSince_append issued nofun
      · obtain ⟨quiet, now⟩ := same
        have notStop := ne_of_not_switches (.stopInstanceNonBlocking id) quiet (decide_eq_true rfl)
        have notStart := ne_of_not_switches (.startInstance id) quiet (decide_eq_true rfl)
        constructor <;> rw [now]
        · exact fun before => List.mem_cons_of_mem _ (ih.stopping before)
        · exact fun before => List.mem_cons_of_mem _ (ih.starting before)
        · rw [List.reverse_cons]
          exact fun before => (ih.stopped before).append notStop
        · intro before member
          rw [List.reverse_cons]
          exact (ih.running before
            ((List.mem_cons.mp member).resolve_left (Ne.symm notStart))).append notStart

def Phase.up : Phase → Bool
  | .running => true
  | .starting => true
  | .stopping => false
  | .stopped => false

structure Turns (id : String) (log : List Command) : Prop where
  parity : (phase id log).up = true ↔ (log.reverse.filter (Command.switches id)).length % 2 = 0
  turns : ∀ k command, (log.reverse.filter (Command.switches id))[k]? = some command →
    command = if k % 2 = 0 then .stopInstanceNonBlocking id else .startInstance id

/-- One more switch of the right kind. -/
private theorem turns_append {switches : List Command} {next : Command}
    (turns : ∀ k command, switches[k]? = some command →
      command = if k % 2 = 0 then .stopInstanceNonBlocking id else .startInstance id)
    (due : next = if switches.length % 2 = 0 then .stopInstanceNonBlocking id
      else .startInstance id) :
    ∀ k command, (switches ++ [next])[k]? = some command →
      command = if k % 2 = 0 then .stopInstanceNonBlocking id else .startInstance id := by
  intro k command found
  by_cases early : k < switches.length
  · rw [List.getElem?_append_left early] at found
    exact turns k command found
  · rw [List.getElem?_append_right (Nat.le_of_not_lt early)] at found
    obtain ⟨inRange, same⟩ := List.getElem?_eq_some_iff.mp found
    have last : k = switches.length := by
      rw [List.length_singleton] at inRange
      omega
    rw [List.getElem_singleton] at same
    rw [← same, last]
    exact due

private theorem Turns.quiet (turns : Turns id log) (quiet : command.switches id = false)
    (same : (phase id (command :: log)).up = (phase id log).up) : Turns id (command :: log) := by
  have whole : (command :: log).reverse.filter (Command.switches id) =
      log.reverse.filter (Command.switches id) := by
    rw [List.reverse_cons, List.filter_append, List.filter_singleton, quiet]
    exact List.append_nil _
  constructor
  · rw [whole, same]
    exact turns.parity
  · rw [whole]
    exact turns.turns

theorem turns_of_ordered (id : String) {log : List Command} (ordered : Ordered log) :
    Turns id log := by
  induction log with
  | nil => exact ⟨by simp [phase, Phase.up], fun k command found => by simp at found⟩
  | cons command earlier ih =>
      obtain ⟨allowed, before⟩ := ordered
      have old := ih before
      have whole : (command :: earlier).reverse.filter (Command.switches id) =
          earlier.reverse.filter (Command.switches id) ++
            [command].filter (Command.switches id) := by
        rw [List.reverse_cons, List.filter_append]
      rcases phase_cons id command earlier with stop | start | stopped | running | same
      · obtain ⟨rfl, now⟩ := stop
        have even := old.parity.mp (by rw [show phase id earlier = .running from allowed]; rfl)
        have switch : [Command.stopInstanceNonBlocking id].filter (Command.switches id) =
            [.stopInstanceNonBlocking id] := by simp [Command.switches]
        rw [switch] at whole
        refine ⟨?_, ?_⟩
        · rw [now, whole, List.length_append, List.length_singleton]
          simp only [Phase.up, Bool.false_eq_true, false_iff]
          omega
        · rw [whole]
          exact turns_append old.turns (if_pos even).symm
      · obtain ⟨rfl, now⟩ := start
        have odd : ¬(earlier.reverse.filter (Command.switches id)).length % 2 = 0 := by
          rw [← old.parity, show phase id earlier = .stopped from allowed]
          exact nofun
        have switch : [Command.startInstance id].filter (Command.switches id) =
            [.startInstance id] := by simp [Command.switches]
        rw [switch] at whole
        refine ⟨?_, ?_⟩
        · rw [now, whole, List.length_append, List.length_singleton]
          simp only [Phase.up, true_iff]
          omega
        · rw [whole]
          exact turns_append old.turns (if_neg odd).symm
      · obtain ⟨rfl, was, now⟩ := stopped
        exact old.quiet rfl (by rw [now, was]; rfl)
      · obtain ⟨rfl, was, now⟩ := running
        exact old.quiet rfl (by rw [now, was]; rfl)
      · obtain ⟨quiet, now⟩ := same
        exact old.quiet quiet (by rw [now])

end Log

theorem ordered_before (id : String) {log before after : List Command} {command : Command}
    (ordered : Ordered log) (split : log.reverse = before ++ command :: after) :
    command.Allowed before.reverse ∧ Recorded id before.reverse := by
  have whole := congrArg List.reverse split
  rw [List.reverse_reverse, List.reverse_append, List.reverse_cons, List.append_assoc,
    List.singleton_append] at whole
  rw [whole] at ordered
  exact ⟨(ordered_suffix ordered).1, recorded id before.reverse⟩

/-- A log in which every command meets its phase alternates for each instance. -/
theorem alternates_of_ordered (id : String) {log : List Command} (ordered : Ordered log) :
    Alternates id log.reverse := by
  refine ⟨(turns_of_ordered id ordered).turns, ?_, ?_⟩
  · intro before after split
    obtain ⟨allowed, record⟩ := ordered_before id ordered split
    have seen := record.stopped allowed
    rw [List.reverse_reverse] at seen
    exact seen
  · intro before after split issued
    obtain ⟨allowed, record⟩ := ordered_before id ordered split
    have seen := record.running allowed (List.mem_reverse.mpr issued)
    rw [List.reverse_reverse] at seen
    exact seen

/-! ### The phases of the lists -/

def Fleet.pools (fleet : Fleet) : List String := (fleet.onD ++ fleet.bur).map Node.id

/-- Pool nodes are stopped; nodes in rotation run, or have been started and are
still to be waited for; the k-th stopped node is as far as `drained` says. -/
structure Fleet.Phased (fleet : Fleet) (waiting : List String) (drained : Nat → Phase) : Prop where
  ordered : Ordered fleet.log
  pooled : ∀ id ∈ fleet.pools, phase id fleet.log = .stopped
  used : ∀ id ∈ fleet.inUse,
    phase id fleet.log = .running ∨ phase id fleet.log = .starting ∧ id ∈ waiting
  retired : ∀ k node, fleet.stoppedInstances[k]? = some node → phase node.id fleet.log = drained k

def upTo (i : Nat) (done todo : Phase) (k : Nat) : Phase :=
  if k < i then done else todo

section Lists

variable {fleet after : Fleet} {waiting : List String} {drained : Nat → Phase} {node : Node}
  {id : String}

theorem pools_apart (distinct : (fleet.nodes.map Node.id).Nodup) (used : id ∈ fleet.inUse) :
    id ∉ fleet.pools := by
  intro pooled
  apply inUse_apart distinct used
  rw [List.map_append]
  exact List.mem_append_left _ pooled

theorem stopped_apart (distinct : (fleet.nodes.map Node.id).Nodup) (used : id ∈ fleet.inUse) :
    ∀ node ∈ fleet.stoppedInstances, node.id ≠ id := by
  rintro node member rfl
  apply inUse_apart distinct used
  rw [List.map_append]
  exact List.mem_append_right _ (List.mem_map_of_mem member)

/-- A stopped node is in no pool and listed once. -/
theorem stopped_once (distinct : (fleet.nodes.map Node.id).Nodup) {i : Nat}
    (found : fleet.stoppedInstances[i]? = some node) :
    node.id ∉ fleet.pools ∧ node.id ∉ fleet.inUse ∧
      ∀ k other, fleet.stoppedInstances[k]? = some other → k ≠ i → other.id ≠ node.id := by
  have member := List.mem_of_getElem? found
  have parts : (fleet.pools ++ fleet.stoppedInstances.map Node.id).Nodup := by
    rw [List.nodup_iff_count_le_one] at distinct ⊢
    intro id
    have once := distinct id
    simp only [Fleet.nodes, Fleet.pools, List.map_append, List.count_append] at once ⊢
    omega
  obtain ⟨_pools, stopped, apart⟩ := List.nodup_append.mp parts
  refine ⟨?_, ?_, ?_⟩
  · intro pooled
    exact apart node.id pooled node.id (List.mem_map_of_mem member) rfl
  · intro used
    exact stopped_apart distinct used node member rfl
  · intro k other there different same
    have first : (fleet.stoppedInstances.map Node.id)[k]? = some node.id := by
      rw [List.getElem?_map, there, Option.map_some, same]
    have second : (fleet.stoppedInstances.map Node.id)[i]? = some node.id := by
      rw [List.getElem?_map, found, Option.map_some]
    obtain ⟨inRange, _same⟩ := List.getElem?_eq_some_iff.mp first
    exact different ((List.getElem?_inj inRange stopped).mp (first.trans second.symm))

/-- Nodes may move within the pools and within the rotation. -/
theorem Fleet.Phased.rearranged (phased : fleet.Phased waiting drained)
    (log : after.log = fleet.log) (pools : ∀ id ∈ after.pools, id ∈ fleet.pools)
    (used : ∀ id ∈ after.inUse, id ∈ fleet.inUse)
    (retired : after.stoppedInstances = fleet.stoppedInstances) :
    after.Phased waiting drained := by
  constructor
  · rw [log]
    exact phased.ordered
  · intro id pooled
    rw [log]
    exact phased.pooled id (pools id pooled)
  · intro id member
    rw [log]
    exact phased.used id (used id member)
  · rw [log, retired]
    exact phased.retired

theorem touched_inUse {cfg : Config} {currBur pending : List Node}
    (running : List.Forall₂ (Touched cfg) fleet.currBur currBur)
    (draining : List.Forall₂ (Touched cfg) fleet.stoppedInstancesPending pending) :
    Fleet.inUse { fleet with currBur := currBur, stoppedInstancesPending := pending } =
      fleet.inUse := by
  simp only [Fleet.inUse, List.map_append, ids_of_touched running, ids_of_touched draining]

theorem Fleet.Phased.touched (cfg : Config) {currBur pending : List Node}
    (phased : fleet.Phased waiting drained)
    (running : List.Forall₂ (Touched cfg) fleet.currBur currBur)
    (draining : List.Forall₂ (Touched cfg) fleet.stoppedInstancesPending pending) :
    Fleet.Phased { fleet with currBur := currBur, stoppedInstancesPending := pending }
      waiting drained := by
  refine phased.rearranged rfl (fun _id pooled => pooled) ?_ rfl
  rw [touched_inUse running draining]
  exact fun _id member => member

/-- A running node leaves the rotation for the stopped nodes. -/
theorem Fleet.Phased.retire (phased : fleet.Phased [] fun _k => .running)
    (log : after.log = fleet.log) (pools : after.pools = fleet.pools)
    (used : ∀ id ∈ after.inUse, id ∈ fleet.inUse) (left : node.id ∈ fleet.inUse)
    (retired : after.stoppedInstances = fleet.stoppedInstances ++ [node]) :
    after.Phased [] fun _k => .running := by
  have running : ∀ id ∈ fleet.inUse, phase id fleet.log = .running := by
    intro id member
    rcases phased.used id member with now | later
    · exact now
    · exact absurd later.2 List.not_mem_nil
  constructor
  · rw [log]
    exact phased.ordered
  · rw [log, pools]
    exact phased.pooled
  · intro id member
    rw [log]
    exact .inl (running id (used id member))
  · intro k other found
    rw [retired] at found
    rw [log]
    rcases List.mem_append.mp (List.mem_of_getElem? found) with earlier | last
    · obtain ⟨index, there⟩ := List.getElem?_of_mem earlier
      exact phased.retired index other there
    · rw [List.mem_singleton.mp last]
      exact running node.id left

/-- A stopped node goes back to its pool. -/
theorem Fleet.Phased.repool {rest : List Node} (phased : fleet.Phased waiting fun _k => .stopped)
    (log : after.log = fleet.log) (used : after.inUse = fleet.inUse)
    (head : fleet.stoppedInstances = node :: rest) (retired : after.stoppedInstances = rest)
    (pools : ∀ id ∈ after.pools, id = node.id ∨ id ∈ fleet.pools) :
    after.Phased waiting fun _k => .stopped := by
  constructor
  · rw [log]
    exact phased.ordered
  · intro id pooled
    rw [log]
    rcases pools id pooled with rfl | earlier
    · exact phased.retired 0 node (by rw [head]; rfl)
    · exact phased.pooled id earlier
  · rw [log, used]
    exact phased.used
  · intro k other found
    rw [retired] at found
    rw [log]
    exact phased.retired (k + 1) other (by rw [head, List.getElem?_cons_succ]; exact found)

/-- One iteration of a loop that commands the stopped nodes in turn. -/
theorem Fleet.Phased.pass {i : Nat} {done todo : Phase} {command : Command}
    (phased : fleet.Phased waiting (upTo i done todo))
    (distinct : (fleet.nodes.map Node.id).Nodup)
    (found : fleet.stoppedInstances[i]? = some node) (target : command.target = node.id)
    (allowed : command.Allowed fleet.log)
    (reached : phase node.id (command :: fleet.log) = done) :
    (fleet.record command).Phased waiting (upTo (i + 1) done todo) := by
  obtain ⟨notPooled, notUsed, once⟩ := stopped_once distinct found
  have spared : ∀ id, id ≠ node.id → phase id (command :: fleet.log) = phase id fleet.log := by
    intro id other
    exact phase_other _ fleet.log (target ▸ Ne.symm other)
  constructor
  · exact ⟨allowed, phased.ordered⟩
  · intro id pooled
    exact (spared id fun same => notPooled (same ▸ pooled)).trans (phased.pooled id pooled)
  · intro id member
    change phase id (command :: fleet.log) = _ ∨ phase id (command :: fleet.log) = _ ∧ _
    rw [spared id fun same => notUsed (same ▸ member)]
    exact phased.used id member
  · intro k other there
    change phase other.id (command :: fleet.log) = _
    by_cases here : k = i
    · subst here
      have same : other = node := Option.some.inj (there.symm.trans found)
      rw [same, reached]
      exact (if_pos (Nat.lt_succ_self k)).symm
    · rw [spared other.id (once k other there here), phased.retired k other there]
      unfold upTo
      exact if_congr (by omega) rfl rfl

/-- A node of a pool is started and put into rotation. -/
theorem Fleet.Phased.start (phased : fleet.Phased waiting drained)
    (distinct : (after.nodes.map Node.id).Nodup) (pooled : id ∈ fleet.pools)
    (log : after.log = .startInstance id :: fleet.log) (begun : id ∈ after.inUse)
    (used : ∀ other ∈ after.inUse, other = id ∨ other ∈ fleet.inUse)
    (pools : ∀ other ∈ after.pools, other ∈ fleet.pools)
    (retired : after.stoppedInstances = fleet.stoppedInstances) :
    after.Phased (waiting ++ [id]) drained := by
  have spared : ∀ other, other ≠ id → phase other after.log = phase other fleet.log := by
    intro other different
    rw [log]
    exact phase_other _ fleet.log (Ne.symm different)
  constructor
  · rw [log]
    exact ⟨phased.pooled id pooled, phased.ordered⟩
  · intro other member
    rw [spared other fun same => pools_apart distinct begun (same ▸ member)]
    exact phased.pooled other (pools other member)
  · intro other member
    by_cases same : other = id
    · subst same
      right
      rw [log]
      exact ⟨phase_start other fleet.log, by simp⟩
    · rw [spared other same]
      rcases phased.used other ((used other member).resolve_left same) with running | starting
      · exact .inl running
      · exact .inr ⟨starting.1, List.mem_append_left _ starting.2⟩
  · intro k other found
    rw [retired] at found
    have apart := stopped_apart distinct begun other
      (by rw [retired]; exact List.mem_of_getElem? found)
    rw [spared other.id apart]
    exact phased.retired k other found

/-- One iteration of a loop that waits for started nodes. -/
theorem Fleet.Phased.blockRunning (phased : fleet.Phased (id :: waiting) drained)
    (distinct : (fleet.nodes.map Node.id).Nodup) (used : id ∈ fleet.inUse) :
    (fleet.record (.blockRunning id)).Phased waiting drained := by
  have spared : ∀ other, other ≠ id →
      phase other (.blockRunning id :: fleet.log) = phase other fleet.log := by
    intro other different
    exact phase_other _ fleet.log (Ne.symm different)
  constructor
  · exact ⟨trivial, phased.ordered⟩
  · intro other member
    exact (spared other fun same => pools_apart distinct used (same ▸ member)).trans
      (phased.pooled other member)
  · intro other member
    change phase other (.blockRunning id :: fleet.log) = _ ∨
      phase other (.blockRunning id :: fleet.log) = _ ∧ _
    by_cases same : other = id
    · subst same
      left
      exact phase_blockRunning ((phased.used other used).imp_right And.left)
    · rw [spared other same]
      rcases phased.used other member with running | starting
      · exact .inl running
      · exact .inr ⟨starting.1, (List.mem_cons.mp starting.2).resolve_left same⟩
  · intro k other found
    exact (spared other.id
      (stopped_apart distinct used other (List.mem_of_getElem? found))).trans
        (phased.retired k other found)

end Lists

/-! ### Loops over the lists -/

section Loops

variable {cfg : Config} {drained : Nat → Phase}

def Locked.Phased (outcome : Locked) (waiting : Fleet → List String) (drained : Nat → Phase) :
    Prop :=
  Ordered outcome.fleet.log ∧
    (outcome.raised = false → outcome.fleet.Phased (waiting outcome.fleet) drained)

theorem Fleet.Phased.locked {fleet : Fleet} {waiting : List String}
    (phased : fleet.Phased waiting drained) (later : Fleet → List String)
    (same : later fleet = waiting) : Locked.Phased ⟨fleet, false⟩ later drained :=
  ⟨phased.ordered, fun _returned => same ▸ phased⟩

def beyond (base : Nat) (nodes : List Node) : List String := (nodes.drop base).map Node.id

theorem beyond_append {base : Nat} {nodes : List Node} (within : base ≤ nodes.length)
    (node : Node) : beyond base (nodes ++ [node]) = beyond base nodes ++ [node.id] := by
  unfold beyond
  rw [List.drop_append_of_le_length within, List.map_append]
  rfl

theorem startOnD_phased (cfg : Config) (now : String → Int) (od : Int) (base : Nat)
    (pool : List Node) (fleet : Fleet) (whole : fleet.onD = pool)
    (within : base ≤ fleet.currOnD.length) (distinct : (fleet.nodes.map Node.id).Nodup)
    (phased : fleet.Phased (beyond base fleet.currOnD) drained) :
    (Fleet.startOnD now od pool fleet).Phased (fun fleet => beyond base fleet.currOnD) drained := by
  induction pool generalizing fleet with
  | nil => exact phased.locked (fun fleet => beyond base fleet.currOnD) rfl
  | cons node pool ih =>
      have pooled : node.id ∈ fleet.pools := by simp [Fleet.pools, whole]
      unfold Fleet.startOnD
      split
      · split
        · exact ⟨⟨phased.pooled node.id pooled, phased.ordered⟩, nofun⟩
        · rename_i ondCost opened
          have move : Move cfg (fun _risk => True) fleet _ :=
            .startOnD whole (fun _empty => trivial) opened
          have later := move.ids_nodup distinct
          refine ih _ rfl ?_ later ?_
          · rw [List.length_append]
            exact Nat.le_add_right_of_le within
          · rw [beyond_append within]
            refine phased.start later pooled rfl ?_ ?_ ?_ rfl
            · simp [Fleet.inUse, id_reweighed]
            · intro other member
              simp only [Fleet.inUse, Fleet.record, List.map_append, List.mem_append, List.map_cons,
                List.map_nil, List.mem_singleton, id_reweighed] at member ⊢
              tauto
            · intro other member
              simp only [Fleet.pools, whole, List.map_append, List.mem_append, List.map_cons,
                List.mem_cons] at member ⊢
              tauto
      · exact phased.locked (fun fleet => beyond base fleet.currOnD) rfl

theorem startBur_phased (now : String → Int) (b : Int) (base : Nat) (pool : List Node)
    (fleet : Fleet) (whole : fleet.bur = pool) (within : base ≤ fleet.currBur.length)
    (distinct : (fleet.nodes.map Node.id).Nodup)
    (phased : fleet.Phased (beyond base fleet.currBur) drained) :
    (Fleet.startBur now cfg.L b pool fleet).Phased (fun fleet => beyond base fleet.currBur)
      drained := by
  induction pool generalizing fleet with
  | nil => exact phased.locked (fun fleet => beyond base fleet.currBur) rfl
  | cons node pool ih =>
      have pooled : node.id ∈ fleet.pools := by simp [Fleet.pools, whole]
      unfold Fleet.startBur
      split
      · split
        · exact ⟨⟨phased.pooled node.id pooled, phased.ordered⟩, nofun⟩
        · rename_i burCost opened
          have move : Move cfg (fun _risk => True) fleet _ := .startBur whole opened
          have later := move.ids_nodup distinct
          refine ih _ rfl ?_ later ?_
          · rw [List.length_append]
            exact Nat.le_add_right_of_le within
          · rw [beyond_append within]
            refine phased.start later pooled rfl ?_ ?_ ?_ rfl
            · simp [Fleet.inUse, id_reweighed]
            · intro other member
              simp only [Fleet.inUse, Fleet.record, List.map_append, List.mem_append, List.map_cons,
                List.map_nil, List.mem_singleton, id_reweighed] at member ⊢
              tauto
            · intro other member
              simp only [Fleet.pools, whole, List.map_append, List.mem_append, List.map_cons,
                List.mem_cons] at member ⊢
              tauto
      · exact phased.locked (fun fleet => beyond base fleet.currBur) rfl

theorem stopOnD_phased (od : Int) (running : List Node) (fleet : Fleet)
    (whole : fleet.currOnD = running) (phased : fleet.Phased [] fun _k => .running) :
    (Fleet.stopOnD od running fleet).fleet.Phased [] fun _k => .running := by
  induction running generalizing fleet with
  | nil => exact phased
  | cons node rest ih =>
      unfold Fleet.stopOnD
      split
      · refine ih _ rfl (phased.retire rfl rfl ?_ ?_ rfl)
        · intro id member
          simp only [Fleet.inUse, whole, List.map_append, List.mem_append, List.map_cons,
            List.mem_cons] at member ⊢
          tauto
        · simp [Fleet.inUse, whole]
      · exact phased

/-- Reactivated nodes run, so the wait for them changes nothing. -/
theorem reactivate_phased (L b : Int) (base : Nat) (draining : List Node) (fleet : Fleet)
    (whole : fleet.stoppedInstancesPending = draining) (within : base ≤ fleet.currBur.length)
    (phased : fleet.Phased [] drained) :
    (Fleet.reactivate L b draining fleet).Phased [] drained ∧
      base ≤ (Fleet.reactivate L b draining fleet).currBur.length := by
  induction draining generalizing fleet with
  | nil => exact ⟨phased, within⟩
  | cons node rest ih =>
      unfold Fleet.reactivate
      split
      · refine ih _ rfl ?_ (phased.rearranged rfl (fun _id pooled => pooled) ?_ rfl)
        · rw [List.length_append]
          exact Nat.le_add_right_of_le within
        · intro id member
          simp only [Fleet.inUse, whole, List.map_append, List.mem_append, List.map_cons,
            List.map_nil, List.mem_cons, id_reweighed] at member ⊢
          tauto
      · exact ⟨phased, within⟩

theorem drainBur_phased (b : Int) (running : List Node) (fleet : Fleet)
    (whole : fleet.currBur = running) {waiting : List String}
    (phased : fleet.Phased waiting drained) :
    (Fleet.drainBur b running fleet).Phased waiting drained := by
  induction running generalizing fleet with
  | nil => exact phased
  | cons node rest ih =>
      unfold Fleet.drainBur
      split
      · refine ih _ rfl (phased.rearranged rfl (fun _id pooled => pooled) ?_ rfl)
        intro id member
        simp only [Fleet.inUse, whole, List.map_append, List.mem_append, List.map_cons,
          List.map_nil, List.mem_cons] at member ⊢
        tauto
      · exact phased

theorem Fleet.Phased.await {fleet : Fleet} (phased : fleet.Phased [] drained)
    (waiting : List String) : fleet.Phased waiting drained :=
  ⟨phased.ordered, phased.pooled,
    fun id member => (phased.used id member).imp_right fun both => absurd both.2 List.not_mem_nil,
    phased.retired⟩

theorem scaleUpBur_phased (cfg : Config) (now : String → Int) (credit : String → Rat) (b : Int)
    (fleet : Fleet) (distinct : (fleet.nodes.map Node.id).Nodup)
    (phased : fleet.Phased [] drained) :
    (fleet.scaleUpBur now credit cfg.L b).Phased
      (fun after => beyond fleet.currBur.length after.currBur) drained := by
  have credited : Move cfg (fun _risk => True) fleet _ :=
    .touch (touched_same fleet.currBur)
      (touched_map (readCredit credit) (readCredit_touched credit) fleet.stoppedInstancesPending)
  have sorted := sortDescending_perm Node.creditBalance
    (fleet.stoppedInstancesPending.map (readCredit credit))
  have arranged : Fleet.Phased { fleet with
      stoppedInstancesPending := sortDescending Node.creditBalance
        (fleet.stoppedInstancesPending.map (readCredit credit)) } [] drained := by
    refine phased.rearranged rfl (fun _id pooled => pooled) ?_ rfl
    intro id member
    simp only [Fleet.inUse, List.map_append, List.mem_append, (sorted.map Node.id).mem_iff,
      List.map_map] at member ⊢
    exact member
  unfold Fleet.scaleUpBur
  dsimp only
  obtain ⟨reactivated, within⟩ := reactivate_phased cfg.L b fleet.currBur.length _ _ rfl
    (by exact Nat.le_refl _) arranged
  have moved := (Relation.ReflTransGen.head credited
    (.head (.arrange sorted) (reactivate_moves b _ _ rfl)))
  refine startBur_phased now b fleet.currBur.length _ _ rfl within ?_ (reactivated.await _)
  exact moves_invariant moved (fun _risk risky => risky)
    (fun fleet => (fleet.nodes.map Node.id).Nodup)
    (fun _before _after move distinct => move.ids_nodup distinct) distinct

end Loops

/-! ### Steps -/

def State.waiting (state : State) : List String :=
  match state.main with
  | .blockOnD i stop _b => beyond i (state.fleet.currOnD.take stop)
  | .blockBur i stop => beyond i (state.fleet.currBur.take stop)
  | _ => []

def MainPc.drained : MainPc → Nat → Phase
  | .stopIssue i _lenStopped => upTo i .stopping .running
  | .stopBlock i _lenStopped => upTo i .stopped .stopping
  | .repool _left => fun _k => .stopped
  | _ => fun _k => .running

def State.Covers (state : State) : Prop :=
  match state.main with
  | .stopIssue _i lenStopped => state.fleet.stoppedInstances.length = lenStopped
  | .stopBlock _i lenStopped => state.fleet.stoppedInstances.length = lenStopped
  | .repool left => state.fleet.stoppedInstances.length = left
  | _ => True

/-- A main thread that has raised issues no further command. -/
structure State.Orderly (state : State) : Prop where
  ordered : Ordered state.fleet.log
  lists : state.main ≠ .raised →
    state.fleet.Phased state.waiting state.main.drained ∧ state.Covers

section Steps

variable {est : Estimator} {cfg : Config} {input : MainInput} {state before after : State}

theorem State.Orderly.of_lists (phased : state.fleet.Phased state.waiting state.main.drained)
    (covers : state.Covers) : state.Orderly :=
  ⟨phased.ordered, fun _alive => ⟨phased, covers⟩⟩

theorem State.Orderly.of_raised (ordered : Ordered state.fleet.log)
    (raised : state.main = .raised) : state.Orderly :=
  ⟨ordered, fun alive => absurd raised alive⟩

/-- Only the positions that are taken matter. -/
theorem Fleet.Phased.redrained {fleet : Fleet} {waiting : List String} {drained later : Nat → Phase}
    (phased : fleet.Phased waiting drained)
    (same : ∀ k, k < fleet.stoppedInstances.length → drained k = later k) :
    fleet.Phased waiting later := by
  refine ⟨phased.ordered, phased.pooled, phased.used, ?_⟩
  intro k node found
  obtain ⟨inRange, _same⟩ := List.getElem?_eq_some_iff.mp found
  rw [phased.retired k node found]
  exact same k inRange

theorem upTo_zero (done todo : Phase) : upTo 0 done todo = fun _k => todo :=
  funext fun k => if_neg (Nat.not_lt_zero k)

theorem upTo_all {i k : Nat} (inside : k < i) (done todo : Phase) : upTo i done todo k = done :=
  if_pos inside

private theorem drainCheck_orderly (j left : Nat)
    (phased : state.fleet.Phased [] fun _k => .running) :
    (drainCheck input state j left).Orderly := by
  cases left with
  | zero =>
      refine .of_lists ?_ rfl
      change state.fleet.Phased [] (upTo 0 .stopping .running)
      rw [upTo_zero]
      exact phased
  | succ left =>
      simp only [drainCheck]
      split
      · exact .of_raised phased.ordered rfl
      · split
        · exact .of_lists phased trivial
        · exact .of_lists phased trivial

private theorem drainMove_orderly (j left : Nat)
    (phased : state.fleet.Phased [] fun _k => .running) :
    (drainMove state j left).Orderly := by
  unfold drainMove
  split
  · exact .of_raised phased.ordered rfl
  · rename_i fleet retired
    obtain ⟨node, found, rfl⟩ := Option.map_eq_some_iff.mp retired
    refine .of_lists (phased.retire rfl rfl ?_ ?_ rfl) trivial
    · intro id member
      simp only [Fleet.inUse, List.map_append, List.mem_append] at member ⊢
      refine member.imp_right fun pending => ?_
      exact ((List.eraseIdx_sublist _ j).map Node.id).subset pending
    · have member := List.mem_map_of_mem (f := Node.id) (List.mem_of_getElem? found)
      simp only [Fleet.inUse, List.map_append, List.mem_append]
      exact .inr member

private theorem stopIssue_orderly (i lenStopped : Nat)
    (phased : state.fleet.Phased [] (upTo i .stopping .running))
    (covers : state.fleet.stoppedInstances.length = lenStopped)
    (distinct : (state.fleet.nodes.map Node.id).Nodup) :
    (stopIssue state i lenStopped).Orderly := by
  unfold stopIssue
  split
  · split
    · exact .of_raised phased.ordered rfl
    · rename_i node found
      refine .of_lists (phased.pass distinct found rfl ?_ (phase_stop _ _)) covers
      exact (phased.retired i node found).trans (if_neg (Nat.lt_irrefl i))
  · rename_i all
    refine .of_lists ?_ covers
    change state.fleet.Phased [] (upTo 0 .stopped .stopping)
    rw [upTo_zero]
    exact phased.redrained fun k inRange => upTo_all (by omega) _ _

private theorem stopBlock_orderly (i lenStopped : Nat)
    (phased : state.fleet.Phased [] (upTo i .stopped .stopping))
    (covers : state.fleet.stoppedInstances.length = lenStopped)
    (distinct : (state.fleet.nodes.map Node.id).Nodup) :
    (stopBlock state i lenStopped).Orderly := by
  unfold stopBlock
  split
  · split
    · exact .of_raised phased.ordered rfl
    · rename_i node found
      have stopping := (phased.retired i node found).trans (if_neg (Nat.lt_irrefl i))
      exact .of_lists (phased.pass distinct found rfl trivial (phase_blockStopped stopping)) covers
  · rename_i all
    exact .of_lists (phased.redrained fun k inRange => upTo_all (by omega) _ _) covers

private theorem repool_orderly (left : Nat) (phased : state.fleet.Phased [] fun _k => .stopped)
    (covers : state.fleet.stoppedInstances.length = left) :
    (repool input state left).Orderly := by
  cases left with
  | zero =>
      refine .of_lists (phased.redrained fun k inRange => ?_) trivial
      omega
  | succ left =>
      simp only [repool]
      split
      · exact .of_raised phased.ordered rfl
      · rename_i fleet repooled
        unfold Fleet.repool at repooled
        split at repooled
        · cases repooled
        · rename_i node rest head
          rw [head, List.length_cons] at covers
          split at repooled
          · obtain ⟨burCost, _closed, rfl⟩ := Option.map_eq_some_iff.mp repooled
            refine .of_lists (phased.repool rfl rfl head rfl ?_) (Nat.succ.inj covers)
            intro id member
            simp only [Fleet.pools, List.map_append, List.mem_append, List.map_cons, List.map_nil,
              List.mem_singleton] at member ⊢
            tauto
          · obtain ⟨ondCost, _closed, rfl⟩ := Option.map_eq_some_iff.mp repooled
            refine .of_lists (phased.repool rfl rfl head rfl ?_) (Nat.succ.inj covers)
            intro id member
            simp only [Fleet.pools, List.map_append, List.mem_append, List.map_cons, List.map_nil,
              List.mem_singleton] at member ⊢
            tauto

private theorem creditTotal_orderly (cfg : Config) (index : Nat) (total throughput : Rat)
    (phased : state.fleet.Phased [] fun _k => .running) :
    (creditTotal input state index total throughput).Orderly := by
  unfold creditTotal
  split
  · exact .of_lists phased trivial
  · rename_i fleet credit read
    unfold Fleet.readCreditAt at read
    split at read
    · obtain ⟨rfl, _value⟩ := Prod.mk.inj (Option.some.inj read)
      exact .of_lists (phased.touched cfg
        (touched_modify _ (readCredit_touched _) _ _) (touched_same _)) trivial
    · obtain ⟨node, _found, same⟩ := Option.map_eq_some_iff.mp read
      obtain ⟨rfl, _value⟩ := Prod.mk.inj same
      exact .of_lists (phased.touched cfg (touched_same _)
        (touched_modify _ (readCredit_touched _) _ _)) trivial

/-- The wait covers the positions from the old length to the new one. -/
theorem beyond_take (base : Nat) (nodes : List Node) :
    beyond base (nodes.take nodes.length) = beyond base nodes := by
  rw [List.take_length]

private theorem scaleOnD_orderly (cfg : Config) (od b : Int)
    (phased : state.fleet.Phased [] fun _k => .running)
    (distinct : (state.fleet.nodes.map Node.id).Nodup) : (scaleOnD input state od b).Orderly := by
  have initial : state.fleet.Phased (beyond state.fleet.currOnD.length state.fleet.currOnD)
      fun _k => .running := phased.await _
  have started := startOnD_phased cfg input.now od state.fleet.currOnD.length state.fleet.onD
    state.fleet rfl (Nat.le_refl _) distinct initial
  have stopped := stopOnD_phased od state.fleet.currOnD state.fleet rfl phased
  unfold scaleOnD
  split
  · dsimp only
    split
    · exact .of_raised started.1 rfl
    · rename_i returned
      refine .of_lists ?_ trivial
      have lists := started.2 (Bool.eq_false_iff.mpr returned)
      dsimp only at lists
      rw [← beyond_take] at lists
      exact lists
  · split
    · dsimp only
      split
      · exact .of_raised stopped.ordered rfl
      · exact .of_lists stopped trivial
    · exact .of_lists phased trivial

private theorem beyond_uncons {nodes : List Node} {node : Node} {i stop : Nat} (inside : i < stop)
    (found : nodes[i]? = some node) :
    beyond i (nodes.take stop) = node.id :: beyond (i + 1) (nodes.take stop) := by
  obtain ⟨inRange, rfl⟩ := List.getElem?_eq_some_iff.mp found
  have bound : i < (nodes.take stop).length := by
    rw [List.length_take]
    exact lt_min inside inRange
  unfold beyond
  rw [List.drop_eq_getElem_cons bound, List.map_cons, List.getElem_take]

private theorem beyond_end {nodes : List Node} {i stop : Nat} (outside : ¬i < stop) :
    beyond i (nodes.take stop) = [] := by
  unfold beyond
  rw [List.drop_eq_nil_of_le, List.map_nil]
  rw [List.length_take]
  omega

private theorem blockOnD_orderly (i stop : Nat) (b : Int)
    (phased : state.fleet.Phased (beyond i (state.fleet.currOnD.take stop)) fun _k => .running)
    (distinct : (state.fleet.nodes.map Node.id).Nodup) : (blockOnD state i stop b).Orderly := by
  unfold blockOnD
  split
  · rename_i inside
    split
    · exact .of_raised phased.ordered rfl
    · rename_i node found
      rw [beyond_uncons inside found] at phased
      refine .of_lists (phased.blockRunning distinct ?_) trivial
      have member := List.mem_map_of_mem (f := Node.id) (List.mem_of_getElem? found)
      simp only [Fleet.inUse, List.map_append, List.mem_append]
      exact .inl (.inl (.inl member))
  · rename_i outside
    rw [beyond_end outside] at phased
    exact .of_lists phased trivial

private theorem blockBur_orderly (i stop : Nat)
    (phased : state.fleet.Phased (beyond i (state.fleet.currBur.take stop)) fun _k => .running)
    (distinct : (state.fleet.nodes.map Node.id).Nodup) : (blockBur state i stop).Orderly := by
  unfold blockBur
  split
  · rename_i inside
    split
    · exact .of_raised phased.ordered rfl
    · rename_i node found
      rw [beyond_uncons inside found] at phased
      refine .of_lists (phased.blockRunning distinct ?_) trivial
      have member := List.mem_map_of_mem (f := Node.id) (List.mem_of_getElem? found)
      simp only [Fleet.inUse, List.map_append, List.mem_append]
      exact .inl (.inl (.inr member))
  · rename_i outside
    rw [beyond_end outside] at phased
    exact .of_lists phased trivial

private theorem scaleBur_orderly (b : Int) (phased : state.fleet.Phased [] fun _k => .running)
    (distinct : (state.fleet.nodes.map Node.id).Nodup) :
    (scaleBur cfg input state b).Orderly := by
  have scaled := scaleUpBur_phased cfg input.now input.credit b state.fleet distinct phased
  unfold scaleBur
  split
  · dsimp only
    split
    · exact .of_raised scaled.1 rfl
    · rename_i returned
      refine .of_lists ?_ trivial
      have lists := scaled.2 (Bool.eq_false_iff.mpr returned)
      dsimp only at lists
      rw [← beyond_take] at lists
      exact lists
  · split
    · exact .of_lists (phased.touched cfg (touched_map _ (readCredit_touched _) _)
        (touched_same _)) trivial
    · exact .of_lists phased trivial

private theorem sort_orderly (b : Int) (phased : state.fleet.Phased [] fun _k => .running) :
    State.Orderly { state with fleet := state.fleet.beginSort, main := .sorting b } ∧
      State.Orderly { state with fleet := state.fleet.endSort, main := .drainPick b } := by
  have sorted := (sortAscending_perm Node.creditBalance state.fleet.sorting).map Node.id
  refine ⟨.of_lists (phased.rearranged rfl (fun _id pooled => pooled) ?_ rfl) trivial,
    .of_lists (phased.rearranged rfl (fun _id pooled => pooled) ?_ rfl) trivial⟩
  · intro id member
    simp only [Fleet.inUse, Fleet.beginSort, List.map_append, List.mem_append, List.map_nil]
      at member ⊢
    tauto
  · intro id member
    simp only [Fleet.inUse, Fleet.endSort, List.map_append, List.mem_append, List.map_nil,
      sorted.mem_iff] at member ⊢
    tauto

theorem mainStep_orderly (taken : mainStep est cfg input before = some after)
    (distinct : (before.fleet.nodes.map Node.id).Nodup) (orderly : before.Orderly) :
    after.Orderly := by
  have alive : before.main ≠ .raised := (mainStep_running est cfg input before taken).2
  obtain ⟨phased, covers⟩ := orderly.lists alive
  unfold State.waiting at phased
  unfold State.Covers at covers
  unfold mainStep at taken
  cases here : before.main <;> rw [here] at taken phased covers <;> cases taken
  case loopHead =>
    split
    · exact .of_lists phased trivial
    · exact .of_lists phased trivial
  case drainCheck j left => exact drainCheck_orderly j left phased
  case drainMove j left => exact drainMove_orderly j left phased
  case stopIssue i lenStopped => exact stopIssue_orderly i lenStopped phased covers distinct
  case stopBlock i lenStopped => exact stopBlock_orderly i lenStopped phased covers distinct
  case repool left => exact repool_orderly left phased covers
  case rate =>
    unfold measureRate
    split
    · exact .of_raised phased.ordered rfl
    · dsimp only
      split
      · exact .of_raised phased.ordered rfl
      · exact .of_lists phased trivial
  case creditTotal index total throughput =>
    exact creditTotal_orderly cfg index total throughput phased
  case estimate total throughput =>
    unfold estimate
    split
    · exact .of_raised phased.ordered rfl
    · exact .of_lists phased trivial
  case scaleOnD od b => exact scaleOnD_orderly cfg od b phased distinct
  case blockOnD i stop b => exact blockOnD_orderly i stop b phased distinct
  case scaleBur b => exact scaleBur_orderly b phased distinct
  case blockBur i stop => exact blockBur_orderly i stop phased distinct
  case sortStart b => exact (sort_orderly b phased).1
  case sorting b => exact (sort_orderly b phased).2
  case drainPick b => exact .of_lists (drainBur_phased b _ _ rfl phased) trivial
  case sleep => exact .of_lists phased trivial
  case finalWait =>
    split
    · exact orderly
    · exact .of_lists phased trivial
  case finish => exact .of_lists (phased.rearranged rfl (fun _ m => m) (fun _ m => m) rfl) trivial

/-- The other thread changes weights only. -/
theorem shortStep_orderly {input : ShortInput} (taken : shortStep cfg before input = some after)
    (orderly : before.Orderly) : after.Orderly := by
  have effect := shortStep_effect taken
  obtain ⟨currBur, pending, running, draining, same⟩ := effect.touched
  constructor
  · rw [same]
    exact orderly.ordered
  · intro alive
    rw [effect.main] at alive ⊢
    obtain ⟨phased, covers⟩ := orderly.lists alive
    have ids := ids_of_touched running
    have waiting : after.waiting = before.waiting := by
      unfold State.waiting
      rw [effect.main, same]
      simp only [beyond, List.map_drop, List.map_take, ids]
    constructor
    · rw [waiting, same]
      exact phased.touched cfg running draining
    · unfold State.Covers at covers ⊢
      rw [effect.main, same]
      exact covers

end Steps

/-! ### Start-up -/

section StartUp

variable {cfg : Config} {base : UpstreamBlock} {created : List Info} {input : StartInput}
  {start : State} {fleet : Fleet}

theorem phase_stops (id : String) (ids : List String) :
    phase id (ids.map .stopInstanceNonBlocking) = if id ∈ ids then .stopping else .running := by
  induction ids with
  | nil => rfl
  | cons head rest ih =>
      rw [List.map_cons]
      by_cases same : head = id
      · subst same
        rw [phase_stop, if_pos List.mem_cons_self]
      · rw [phase_other (.stopInstanceNonBlocking head) _ same, ih]
        simp [Ne.symm same]

theorem ordered_stops {ids : List String} (distinct : ids.Nodup) :
    Ordered (ids.map .stopInstanceNonBlocking) := by
  induction ids with
  | nil => trivial
  | cons head rest ih =>
      obtain ⟨absent, later⟩ := List.nodup_cons.mp distinct
      exact ⟨(phase_stops head rest).trans (if_neg absent), ih later⟩

theorem phase_blocks {id : String} {log : List Command} (ids : List String)
    (stopping : id ∈ ids → phase id log = .stopping) :
    phase id (ids.map .blockStopped ++ log) = if id ∈ ids then .stopped else phase id log := by
  induction ids with
  | nil => rfl
  | cons head rest ih =>
      have earlier := ih fun member => stopping (List.mem_cons_of_mem _ member)
      rw [List.map_cons, List.cons_append]
      by_cases same : head = id
      · subst same
        rw [if_pos List.mem_cons_self]
        by_cases again : head ∈ rest
        · rw [if_pos again] at earlier
          unfold phase
          rw [earlier]
          exact if_neg fun both => nomatch both.2
        · rw [if_neg again] at earlier
          exact phase_blockStopped (earlier.trans (stopping List.mem_cons_self))
      · rw [phase_other (.blockStopped head) _ same, earlier]
        simp [Ne.symm same]

theorem ordered_blocks {log : List Command} (ordered : Ordered log) (ids : List String) :
    Ordered (ids.map .blockStopped ++ log) := by
  induction ids with
  | nil => exact ordered
  | cons head rest ih => exact ⟨trivial, ih⟩

/-- The nodes left in the pools have been stopped, the others run. -/
theorem setStartUpNodes_phased {initOd initBur : Nat}
    (distinct : (created.map Info.instanceId).Nodup)
    (taken : setStartUpNodes (getWikiNodeInfo created) initOd initBur = some fleet) :
    fleet.Phased [] fun _k => .running := by
  have once := setStartUpNodes_ids_nodup distinct taken
  have log : fleet.log = fleet.pools.reverse.map .blockStopped ++
      fleet.pools.reverse.map .stopInstanceNonBlocking := by
    rw [setStartUpNodes_log taken]
    simp only [Fleet.pools, List.map_reverse, List.map_map, Function.comp_def]
  have stopping : ∀ id, id ∈ fleet.pools.reverse →
      phase id (fleet.pools.reverse.map .stopInstanceNonBlocking) = .stopping := by
    intro id member
    exact (phase_stops id _).trans (if_pos member)
  have pools : fleet.pools.reverse.Nodup := by
    rw [List.nodup_reverse, List.nodup_iff_count_le_one]
    intro id
    have whole := List.nodup_iff_count_le_one.mp once id
    simp only [Fleet.nodes, Fleet.pools, List.map_append, List.count_append] at whole ⊢
    omega
  constructor
  · rw [log]
    exact ordered_blocks (ordered_stops pools) _
  · intro id pooled
    rw [log, phase_blocks _ (stopping id), if_pos (List.mem_reverse.mpr pooled)]
  · intro id used
    have apart : id ∉ fleet.pools.reverse := by
      rw [List.mem_reverse]
      exact pools_apart once used
    left
    rw [log, phase_blocks _ (stopping id), if_neg apart, phase_stops, if_neg apart]
  · intro k node found
    obtain ⟨_fits, same⟩ := setStartUpNodes_eq_some.mp taken
    rw [same] at found
    change (getWikiNodeInfo created).stoppedInstances[k]? = some node at found
    rw [(getWikiNodeInfo_pools created).stopped] at found
    cases found

theorem startUp_orderly (distinct : (created.map Info.instanceId).Nodup)
    (started : startUp cfg base created input = some start) : start.Orderly := by
  obtain ⟨fleet, taken, launched⟩ := startUp_launched started
  have phased := setStartUpNodes_phased distinct taken
  obtain ⟨burCost, ondCost, lists⟩ := launched.lists
  refine .of_lists ?_ ?_
  · unfold State.waiting
    rw [launched.main, lists]
    refine phased.rearranged rfl (fun _id pooled => pooled) ?_ rfl
    intro id member
    simp only [Fleet.inUse, List.map_append, List.map_map, Function.comp_def, id_reweighed]
      at member ⊢
    exact member
  · unfold State.Covers
    rw [launched.main]
    trivial

end StartUp

/-! ### Runs -/

/-- In every state of every run, whatever the estimator answers, the commands
issued for an instance alternate, those of the start-up included. -/
theorem commands_alternate (est : Estimator) (cfg : Config) (base : UpstreamBlock)
    (created : List Info) (input : StartInput) (distinct : (created.map Info.instanceId).Nodup)
    (id : String) :
    (∀ fleet, setStartUpNodes (getWikiNodeInfo created) cfg.onDnodes cfg.burNodes = some fleet →
      Alternates id fleet.log.reverse) ∧
    ∀ start state, startUp cfg base created input = some start →
      Reach (step est cfg) (fun _ _ => True) start state →
      Alternates id state.fleet.log.reverse := by
  constructor
  · intro fleet taken
    exact alternates_of_ordered id (setStartUpNodes_phased distinct taken).ordered
  · intro start state started reach
    have orderly : state.Orderly := by
      induction reach with
      | start => exact startUp_orderly distinct started
      | @next before after action reached _permitted taken ih =>
          have once := reach_ids_nodup distinct started reached
          cases action with
          | main input => exact mainStep_orderly taken once ih
          | short input => exact shortStep_orderly taken ih
          | clientDone =>
              cases taken
              exact ⟨ih.ordered, ih.lists⟩
    exact alternates_of_ordered id orderly.ordered

/-- The on-demand node is stopped at the start-up, started, and waited for. -/
theorem commands_alternate_sample :
    ∃ state, sampleRun sampleConfig (fun _ _ => True) (List.replicate 12 sampleMain) = some state ∧
      state.fleet.log.reverse = [.stopInstanceNonBlocking "i-01", .blockStopped "i-01",
        .startInstance "i-01", .blockRunning "i-01"] ∧
      Alternates "i-01" state.fleet.log.reverse := by
  have seen : (sampleRun sampleConfig (fun _ _ => True) (List.replicate 12 sampleMain)).map
      (fun state => state.fleet.log.reverse) = some [.stopInstanceNonBlocking "i-01",
        .blockStopped "i-01", .startInstance "i-01", .blockRunning "i-01"] := by decide +kernel
  obtain ⟨state, ran, issued⟩ := Option.map_eq_some_iff.mp seen
  obtain ⟨start, started, reach⟩ := sampleRun_reach ran
  refine ⟨state, ran, issued, ?_⟩
  exact (commands_alternate (policies sampleConfig) sampleConfig ⟨"least_conn", []⟩ sampleCreated
    ⟨true, true, some 0, fun _ => 0⟩ (by decide) "i-01").2 start state started reach

end AutoBurst.Controller
