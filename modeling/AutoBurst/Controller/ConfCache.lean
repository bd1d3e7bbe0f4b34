/-
The change detector of `updateConf` over whole sequences of calls.

The cached list is replaced on every call, whether or not the rewrite reached
the load balancer. What a skipped call relies on is therefore the outcome of
the most recent rewrite, not the cache.
-/

import AutoBurst.Controller.LoadBalancer

namespace AutoBurst.Controller

structure UpdateCall where
  currOnD : List Node
  currBur : List Node
  pendingStop : List Node
  sent : Bool
deriving DecidableEq

def UpdateCall.ipWeight (call : UpdateCall) : List IpWeight :=
  Controller.ipWeight call.currOnD call.currBur call.pendingStop

def UpdateCall.apply (lb : LoadBalancer) (call : UpdateCall) : LoadBalancer :=
  updateConf lb call.currOnD call.currBur call.pendingStop call.sent

def updateAll (lb : LoadBalancer) (calls : List UpdateCall) : LoadBalancer :=
  calls.foldl UpdateCall.apply lb

def UpdateCall.skips (lb : LoadBalancer) (call : UpdateCall) : Prop :=
  needsRewrite lb.prevIpWeight call.ipWeight = false

def lastRewrite (lb : LoadBalancer) : List UpdateCall → Option (LoadBalancer × UpdateCall)
  | [] => none
  | call :: rest =>
      match lastRewrite (call.apply lb) rest with
      | some found => some found
      | none => if needsRewrite lb.prevIpWeight call.ipWeight then some (lb, call) else none

section Calls

variable {lb : LoadBalancer} {call : UpdateCall}

@[simp] theorem apply_prevIpWeight (lb : LoadBalancer) (call : UpdateCall) :
    (call.apply lb).prevIpWeight = call.ipWeight := rfl

theorem apply_remote_of_skip (skips : call.skips lb) :
    (call.apply lb).wikiConfigRemote = lb.wikiConfigRemote := by
  have unchanged : needsRewrite lb.prevIpWeight call.ipWeight = false := skips
  change (if needsRewrite lb.prevIpWeight call.ipWeight then _ else lb).wikiConfigRemote = _
  rw [unchanged]
  rfl

theorem apply_remote_of_rewrite (rewrites : needsRewrite lb.prevIpWeight call.ipWeight = true) :
    (call.apply lb).wikiConfigRemote.servers =
      if call.sent then call.ipWeight else lb.wikiConfigRemote.servers := by
  change (if needsRewrite lb.prevIpWeight call.ipWeight then
    sendUpdatedNginxConf (initializeNginxConf lb call.ipWeight) call.sent
    else lb).wikiConfigRemote.servers = _
  rw [if_pos rewrites]
  unfold sendUpdatedNginxConf
  split <;> rfl

/-- What the cache and the remote file are worth after a history: the cache is
the list of the last rewrite, and the remote file is that list if it was sent,
and otherwise what it held before. -/
structure Tracks (lb : LoadBalancer) (before : LoadBalancer) (rewrite : UpdateCall) : Prop where
  cached : lb.prevIpWeight = rewrite.ipWeight
  remote : lb.wikiConfigRemote.servers =
    if rewrite.sent then rewrite.ipWeight else before.wikiConfigRemote.servers

theorem tracks_of_rewrite (rewrites : needsRewrite lb.prevIpWeight call.ipWeight = true) :
    Tracks (call.apply lb) lb call :=
  ⟨rfl, apply_remote_of_rewrite rewrites⟩

theorem Tracks.skip {before : LoadBalancer} {rewrite : UpdateCall}
    (tracks : Tracks lb before rewrite) (skips : call.skips lb) :
    Tracks (call.apply lb) before rewrite := by
  have same := (needsRewrite_eq_false_iff lb.prevIpWeight call.ipWeight).mp skips
  refine ⟨?_, ?_⟩
  · rw [apply_prevIpWeight, same.2]
    exact tracks.cached
  · rw [apply_remote_of_skip skips]
    exact tracks.remote

end Calls

/-- A history without a rewrite, from a state whose cache is tracked. -/
private theorem tracks_of_none {lb before : LoadBalancer} {rewrite : UpdateCall}
    (calls : List UpdateCall) (tracks : Tracks lb before rewrite)
    (none : lastRewrite lb calls = none) : Tracks (updateAll lb calls) before rewrite := by
  induction calls generalizing lb with
  | nil => exact tracks
  | cons call rest ih =>
      simp only [lastRewrite] at none
      cases later : lastRewrite (call.apply lb) rest with
      | some found =>
          rw [later] at none
          cases none
      | none =>
          rw [later] at none
          cases rewrites : needsRewrite lb.prevIpWeight call.ipWeight with
          | true =>
              rw [rewrites] at none
              cases none
          | false => exact ih (tracks.skip rewrites) later

theorem tracks_of_lastRewrite {lb before : LoadBalancer} {rewrite : UpdateCall}
    (calls : List UpdateCall) (found : lastRewrite lb calls = some (before, rewrite)) :
    Tracks (updateAll lb calls) before rewrite := by
  induction calls generalizing lb with
  | nil => cases found
  | cons call rest ih =>
      simp only [lastRewrite] at found
      cases later : lastRewrite (call.apply lb) rest with
      | some recent =>
          rw [later] at found
          have same := Option.some.inj found
          subst same
          exact ih later
      | none =>
          rw [later] at found
          cases rewrites : needsRewrite lb.prevIpWeight call.ipWeight with
          | false =>
              rw [rewrites] at found
              cases found
          | true =>
              rw [rewrites] at found
              have same := Option.some.inj found
              obtain ⟨rfl, rfl⟩ := Prod.mk.inj same
              exact tracks_of_none rest (tracks_of_rewrite rewrites) later

/-- With an empty cache nothing is skipped, so a cache that is not empty has a
rewrite behind it. -/
private theorem lastRewrite_isSome {lb : LoadBalancer} (calls : List UpdateCall)
    (started : lb.prevIpWeight = []) (cached : (updateAll lb calls).prevIpWeight ≠ []) :
    ∃ before rewrite, lastRewrite lb calls = some (before, rewrite) := by
  cases calls with
  | nil => exact absurd started cached
  | cons call rest =>
      simp only [lastRewrite]
      cases later : lastRewrite (call.apply lb) rest with
      | some recent => exact ⟨recent.1, recent.2, rfl⟩
      | none =>
          have rewrites : needsRewrite lb.prevIpWeight call.ipWeight = true := by
            rw [started]
            rfl
          exact ⟨lb, call, if_pos rewrites⟩

/-- After any history a call that skips finds its list in the load balancer's
file if and only if the most recent rewrite was transferred, or failed when the
file already held that list. -/
theorem skip_finds_list_iff (lb : LoadBalancer) (calls : List UpdateCall) (call : UpdateCall)
    (started : lb.prevIpWeight = []) (skips : call.skips (updateAll lb calls)) :
    ∃ before rewrite, lastRewrite lb calls = some (before, rewrite) ∧
      ((updateAll lb calls).wikiConfigRemote.servers = call.ipWeight ↔
        rewrite.sent = true ∨ before.wikiConfigRemote.servers = rewrite.ipWeight) := by
  obtain ⟨cached, same⟩ := (needsRewrite_eq_false_iff _ _).mp skips
  obtain ⟨before, rewrite, found⟩ := lastRewrite_isSome calls started cached
  have tracks := tracks_of_lastRewrite calls found
  refine ⟨before, rewrite, found, ?_⟩
  rw [same, tracks.cached, tracks.remote]
  cases rewrite.sent <;> simp

/-! ### A lost transfer -/

def sampleNode : Node :=
  Node.new ⟨"i-01", "m5.large", "172.31.0.1"⟩ 1000 0

def sampleUpdate (sent : Bool) : UpdateCall :=
  { currOnD := [sampleNode], currBur := [], pendingStop := [], sent := sent }

/-- The transfer of the first call fails; the second call with the same nodes
skips although the load balancer still lists nothing. -/
theorem skip_after_lost_transfer :
    (sampleUpdate true).skips (updateAll (setupIntialNginxConf ⟨"least_conn", []⟩ [] true)
        [sampleUpdate false]) ∧
      (updateAll (setupIntialNginxConf ⟨"least_conn", []⟩ [] true)
        [sampleUpdate false]).wikiConfigRemote.servers ≠ (sampleUpdate true).ipWeight := by
  constructor
  · unfold UpdateCall.skips
    decide
  · decide

theorem skip_finds_list_sample :
    ∃ before rewrite, lastRewrite (setupIntialNginxConf ⟨"least_conn", []⟩ [] true)
        [sampleUpdate true] = some (before, rewrite) ∧
      ((updateAll (setupIntialNginxConf ⟨"least_conn", []⟩ [] true)
          [sampleUpdate true]).wikiConfigRemote.servers = (sampleUpdate true).ipWeight ↔
        rewrite.sent = true ∨ before.wikiConfigRemote.servers = rewrite.ipWeight) :=
  skip_finds_list_iff (setupIntialNginxConf ⟨"least_conn", []⟩ [] true) [sampleUpdate true]
    (sampleUpdate true) rfl (by unfold UpdateCall.skips; decide)

end AutoBurst.Controller
