/-
The lists that the short-term thread hands to `updateConf`, in every order of
the two threads' steps. `curr_bur.sort` runs outside the lock, and an update in
the middle of it leaves out every burstable node.
-/

import AutoBurst.Controller.Conservation

namespace AutoBurst.Controller

open Runs

/-- Once each created instance outside the pools and the stopped ones, and
nothing else. -/
def ConsistentSnapshot (created : List Info) (fleet : Fleet) (handed : List Node) : Prop :=
  (∀ info ∈ created, (handed.map Node.id).count info.instanceId =
    if info.instanceId ∈ (fleet.onD ++ fleet.bur ++ fleet.stoppedInstances).map Node.id then 0
    else 1) ∧
  ∀ node ∈ handed, node.info ∈ created

def OutsideSort (state : State) : Act → Prop
  | .short _input => state.short.isLocked = true → state.main.isSorting = false
  | .main _input => True
  | .clientDone => True

instance (created : List Info) (fleet : Fleet) (handed : List Node) :
    Decidable (ConsistentSnapshot created fleet handed) :=
  inferInstanceAs (Decidable (_ ∧ _))

instance (state : State) (action : Act) : Decidable (OutsideSort state action) :=
  match action with
  | .short _input => inferInstanceAs (Decidable (_ → _))
  | .main _input => inferInstanceAs (Decidable True)
  | .clientDone => inferInstanceAs (Decidable True)

theorem Filed.rotation_consistent {created : List Info} {fleet : Fleet}
    (filed : Filed created fleet) (distinct : (created.map Info.instanceId).Nodup)
    (idle : fleet.sorting = []) : ConsistentSnapshot created fleet fleet.rotation := by
  constructor
  · intro info member
    have total := filed.count_ids distinct member
    simp only [Fleet.nodes, idle, List.append_nil, List.map_append, List.count_append] at total
    unfold Fleet.rotation
    split
    · rename_i pooled
      have some := List.count_pos_iff.mpr pooled
      simp only [List.map_append, List.count_append] at some ⊢
      omega
    · rename_i outside
      have none := List.count_eq_zero.mpr outside
      simp only [List.map_append, List.count_append] at none ⊢
      omega
  · intro node member
    apply filed.info_mem
    simp only [Fleet.rotation, Fleet.nodes, List.mem_append] at member ⊢
    tauto

/-- In every run that does not update in the middle of a sort, every update is
made from a consistent snapshot. -/
theorem updates_consistent (est : Estimator) (cfg : Config) (base : UpstreamBlock)
    (created : List Info) (input : StartInput) (start before after : State) (action : ShortInput)
    (distinct : (created.map Info.instanceId).Nodup)
    (fileable : ∀ info ∈ created, info.Fileable)
    (started : startUp cfg base created input = some start)
    (reach : Reach (step est cfg) OutsideSort start before)
    (permitted : OutsideSort before (.short action))
    (taken : step est cfg before (.short action) = some after) (updates : Updates before after) :
    ConsistentSnapshot created after.fleet after.upstream := by
  have reached : Reach (step est cfg) OutsideSort start after := reach.next _ permitted taken
  have outside : after.main.isSorting = false := by
    rw [(shortStep_effect taken).main]
    exact permitted updates.1
  rw [(shortStep_effect taken).updated updates]
  exact (reach_filed fileable started reached).rotation_consistent distinct
    ((reach_sortHeld started reached).outside outside)

/-! ### An update in the middle of a sort -/

def sampleLocked : List Act := [sampleShort .empty, sampleShort .empty]

/-- One burstable node is too many, and while the main thread sorts
`curr_bur` the short-term thread updates. -/
theorem update_mid_sort_inconsistent :
    ∃ start before after action, sampleStart sampleConfig = some start ∧
      Reach (step (policies sampleConfig) sampleConfig) (fun _ _ => True) start before ∧
      step (policies sampleConfig) sampleConfig before (.short action) = some after ∧
      Updates before after ∧
      ¬ConsistentSnapshot sampleCreated after.fleet after.upstream := by
  have seen : ((sampleRun sampleConfig (fun _ _ => True)
      (List.replicate 15 sampleMain ++ sampleLocked)).bind fun before =>
        (step (policies sampleConfig) sampleConfig before (sampleShort .empty)).map fun after =>
          (before.short.isLocked, after.short,
            decide (ConsistentSnapshot sampleCreated after.fleet after.upstream))) =
      some (true, .sleep, false) := by decide +kernel
  obtain ⟨before, ran, next⟩ := Option.bind_eq_some_iff.mp seen
  obtain ⟨after, taken, same⟩ := Option.map_eq_some_iff.mp next
  simp only [Prod.mk.injEq, decide_eq_false_iff_not] at same
  obtain ⟨start, started, reach⟩ := sampleRun_reach ran
  exact ⟨start, before, after, ⟨.empty, true⟩, started, reach, taken, ⟨same.1, same.2.1⟩, same.2.2⟩

/-- The same update two steps later, when the list is sorted and the node that is
too many drains. -/
theorem updates_consistent_sample :
    ∃ start before after, sampleStart sampleConfig = some start ∧
      Reach (step (policies sampleConfig) sampleConfig) OutsideSort start before ∧
      step (policies sampleConfig) sampleConfig before (sampleShort .empty) = some after ∧
      after.upstream.map Node.id = ["i-01", "i-03", "i-02"] ∧
      after.fleet.stoppedInstancesPending.map Node.id = ["i-02"] ∧
      ConsistentSnapshot sampleCreated after.fleet after.upstream := by
  have seen : ((sampleRun sampleConfig OutsideSort
      (List.replicate 17 sampleMain ++ sampleLocked)).bind fun before =>
        (step (policies sampleConfig) sampleConfig before (sampleShort .empty)).map fun after =>
          (before.short.isLocked, after.short, before.main.isSorting,
            after.upstream.map Node.id, after.fleet.stoppedInstancesPending.map Node.id)) =
      some (true, .sleep, false, ["i-01", "i-03", "i-02"], ["i-02"]) := by decide +kernel
  obtain ⟨before, ran, next⟩ := Option.bind_eq_some_iff.mp seen
  obtain ⟨after, taken, same⟩ := Option.map_eq_some_iff.mp next
  simp only [Prod.mk.injEq] at same
  obtain ⟨locked, finished, outside, listed, draining⟩ := same
  obtain ⟨start, started, reach⟩ := sampleRun_reach ran
  refine ⟨start, before, after, started, reach, taken, listed, draining, ?_⟩
  exact updates_consistent (policies sampleConfig) sampleConfig ⟨"least_conn", []⟩ sampleCreated
    ⟨true, true, some 0, fun _ => 0⟩ start before after ⟨.empty, true⟩ (by decide) (by decide)
    started reach (fun _locked => outside) taken ⟨locked, finished⟩

end AutoBurst.Controller
