/-
Runs of proxied requests. Every handler gets a peer only while the request has
none and frees it once, so that the counters of the peers are exact without any
assumption on the requests; and the tries and sends of each request are bounded.
-/

import AutoBurst.Nginx.Failover

namespace AutoBurst.Nginx

open Runs

variable {ι : Type} [DecidableEq ι] {n m : Nat}

/-! ### The number of tries does not matter to the peers -/

def Request.core (request : Request n m) :
    RrPeerData n m × Bool × List (Fin n ⊕ Fin m) :=
  (request.rrp, request.sockaddr, request.returned)

private theorem getFrom_core (inPrimary : List Nat → RrPeers n → Option (Pick n))
    (inBackup : List Nat → RrPeers m → Option (Pick m)) (up : Upstream n m)
    (rrp : RrPeerData n m) (pc other : PeerConnection) :
    (getFrom inPrimary inBackup up rrp other).up = (getFrom inPrimary inBackup up rrp pc).up ∧
      (getFrom inPrimary inBackup up rrp other).rrp = (getFrom inPrimary inBackup up rrp pc).rrp ∧
      (getFrom inPrimary inBackup up rrp other).rc = (getFrom inPrimary inBackup up rrp pc).rc := by
  unfold getFrom
  cases rrp.peers with
  | primary =>
      dsimp only
      cases inPrimary rrp.tried up.primary with
      | some pick => exact ⟨rfl, rfl, rfl⟩
      | none =>
          cases up.next with
          | none => exact ⟨rfl, rfl, rfl⟩
          | some backup =>
              dsimp only
              cases inBackup rrp.toBackup.tried backup <;> exact ⟨rfl, rfl, rfl⟩
  | backup =>
      cases up.next with
      | none => exact ⟨rfl, rfl, rfl⟩
      | some backup =>
          dsimp only
          cases inBackup rrp.tried backup <;> exact ⟨rfl, rfl, rfl⟩

private theorem getLeastConnPeer_core (now : Int) (up : Upstream n m) (rrp : RrPeerData n m)
    (pc other : PeerConnection) :
    (getLeastConnPeer now up rrp other).up = (getLeastConnPeer now up rrp pc).up ∧
      (getLeastConnPeer now up rrp other).rrp = (getLeastConnPeer now up rrp pc).rrp ∧
      (getLeastConnPeer now up rrp other).rc = (getLeastConnPeer now up rrp pc).rc := by
  unfold getLeastConnPeer getRoundRobinPeer
  split
  · exact getFrom_core _ _ up rrp pc other
  · exact getFrom_core _ _ up rrp pc other

private theorem got_core (now : Int) (up : Upstream n m) {request other : Request n m}
    (same : other.core = request.core) :
    (getLeastConnPeer now up other.rrp other.pc).up =
        (getLeastConnPeer now up request.rrp request.pc).up ∧
      (other.got (getLeastConnPeer now up other.rrp other.pc)).core =
        (request.got (getLeastConnPeer now up request.rrp request.pc)).core := by
  obtain ⟨rrp, rest⟩ := Prod.mk.inj same
  obtain ⟨sockaddr, returned⟩ := Prod.mk.inj rest
  obtain ⟨upSame, rrpSame, rcSame⟩ :=
    getLeastConnPeer_core now up request.rrp request.pc other.pc
  rw [rrp]
  refine ⟨upSame, ?_⟩
  unfold Request.core Request.got Outcome.returned
  dsimp only
  rw [rrpSame, rcSame, sockaddr, returned]

private theorem freed_core {now : Int} {up : Upstream n m} {request other : Request n m}
    {state : Nat} {freed : Upstream n m × PeerConnection} (same : other.core = request.core)
    (taken : freeRoundRobinPeer now up request.rrp request.pc state = some freed) :
    ∃ pc, freeRoundRobinPeer now up other.rrp other.pc state = some (freed.1, pc) := by
  have rrp := (Prod.mk.inj same).1
  rw [rrp]
  unfold freeRoundRobinPeer at taken ⊢
  cases current : request.rrp.current with
  | none =>
      rw [current] at taken
      cases taken
  | some slot =>
      rw [current] at taken
      cases slot with
      | inl i =>
          rw [← Option.some.inj taken]
          exact ⟨_, rfl⟩
      | inr i =>
          obtain ⟨backup, next, freedEq⟩ := Option.map_eq_some_iff.mp taken
          subst freedEq
          dsimp only
          rw [next]
          exact ⟨_, rfl⟩

/-! ### Handlers as events of the balancer -/

private def Balancer.put (state : Balancer ι n m) (up : Upstream n m) (who : ι)
    (request : Request n m) : Balancer ι n m :=
  { up := up, request := Function.update state.request who (some request) }

private theorem put_request (state : Balancer ι n m) (up : Upstream n m) (who : ι)
    (request : Request n m) : (state.put up who request).request who = some request := by
  unfold Balancer.put
  exact Function.update_self who (some request) state.request

/-- The uses of a request's peers are disciplined gets and frees. -/
theorem Uses.reach {first last : Upstream n m × Request n m} (uses : Uses first last)
    {balancer : Balancer ι n m} {who : ι} {request : Request n m}
    (there : balancer.request who = some request) (same : request.core = first.2.core)
    (up : balancer.up = first.1) :
    ∃ after final, Reach Balancer.step Disciplined balancer after ∧ after.up = last.1 ∧
      after.request = Function.update balancer.request who (some final) ∧
      final.core = last.2.core := by
  induction uses generalizing balancer request with
  | done state =>
      refine ⟨balancer, request, .start, up, ?_, same⟩
      rw [← there, Function.update_eq_self]
  | @get current held last now idle _later ih =>
      have flag : request.sockaddr = false :=
        (Prod.mk.inj (Prod.mk.inj same).2).1.trans idle
      have disciplined : Disciplined balancer (.get who now) := by
        change balancer.sockaddr who = false
        unfold Balancer.sockaddr
        rw [there]
        exact flag
      have upSame : balancer.up = current := up
      obtain ⟨gotUp, gotCore⟩ := got_core now current same
      have taken : balancer.step (.get who now) =
          some (balancer.put (getLeastConnPeer now current request.rrp request.pc).up who
            (request.got (getLeastConnPeer now current request.rrp request.pc))) := by
        unfold Balancer.step
        dsimp only
        rw [there, Option.map_some, upSame]
        rfl
      obtain ⟨after, final, reached, afterUp, afterRequest, core⟩ :=
        ih (put_request balancer _ who _) gotCore gotUp
      refine ⟨after, final, (Reach.next _ .start disciplined taken).trans reached, afterUp, ?_,
        core⟩
      rw [afterRequest, Balancer.put, Function.update_idem]
  | @free current held last freed now state holding released _later ih =>
      have flag : request.sockaddr = true :=
        (Prod.mk.inj (Prod.mk.inj same).2).1.trans holding
      have disciplined : Disciplined balancer (.free who now state) := by
        change balancer.sockaddr who = true
        unfold Balancer.sockaddr
        rw [there]
        exact flag
      have upSame : balancer.up = current := up
      obtain ⟨pc, release⟩ := freed_core same released
      have taken : balancer.step (.free who now state) =
          some (balancer.put freed.1 who { request with pc := pc, sockaddr := false }) := by
        unfold Balancer.step
        dsimp only
        rw [there, Option.bind_some, upSame, release, Option.map_some]
        rfl
      have core : ({ request with pc := pc, sockaddr := false } : Request n m).core =
          ({ held with pc := freed.2, sockaddr := false } : Request n m).core := by
        obtain ⟨rrp, rest⟩ := Prod.mk.inj same
        unfold Request.core
        dsimp only
        rw [rrp, (Prod.mk.inj rest).2]
      obtain ⟨after, final, reached, afterUp, afterRequest, lastCore⟩ :=
        ih (put_request balancer freed.1 who _) core rfl
      refine ⟨after, final, (Reach.next _ .start disciplined taken).trans reached, afterUp, ?_,
        lastCore⟩
      rw [afterRequest, Balancer.put, Function.update_idem]

/-- No call writes `tries` of a group. -/
theorem Uses.triesTotal {first last : Upstream n m × Request n m} (uses : Uses first last) :
    last.1.triesTotal = first.1.triesTotal := by
  induction uses with
  | done state => rfl
  | @get current held last now _idle _later ih =>
      refine ih.trans ?_
      obtain ⟨inPrimary, inBackup, _, _, ends⟩ :=
        getLeastConnPeer_ends now current held.rrp held.pc
      dsimp only
      generalize getLeastConnPeer now current held.rrp held.pc = out at ends
      unfold Upstream.triesTotal
      cases ends with
      | primary pick group found => rfl
      | turned backup pick group nothing next found =>
          rw [next]
          rfl
      | backup backup pick group next found =>
          rw [next]
          rfl
      | noBackup name group nothing next => rfl
      | neither name backup group nothing next nothingThere => rfl
      | exhausted name group nothing => rfl
  | @free current held last freed now state _holding released _later ih =>
      refine ih.trans ?_
      unfold freeRoundRobinPeer at released
      unfold Upstream.triesTotal
      dsimp only
      cases there : held.rrp.current with
      | none =>
          rw [there] at released
          cases released
      | some slot =>
          rw [there] at released
          cases slot with
          | inl i =>
              rw [← Option.some.inj released]
              rfl
          | inr i =>
              obtain ⟨backup, next, freedEq⟩ := Option.map_eq_some_iff.mp released
              rw [← freedEq, next]
              rfl

def Request.Pointed (request : Request n m) : Prop :=
  request.sockaddr = true → request.rrp.current ≠ none

theorem Uses.pointed {first last : Upstream n m × Request n m} (uses : Uses first last)
    (pointed : first.2.Pointed) : last.2.Pointed := by
  induction uses with
  | done state => exact pointed
  | @get current held last now idle _later ih =>
      apply ih
      intro holding
      change (held.sockaddr || (getLeastConnPeer now current held.rrp held.pc).rc == .ok) = true
        at holding
      rw [idle, Bool.false_or, beq_iff_eq] at holding
      change (getLeastConnPeer now current held.rrp held.pc).rrp.current ≠ none
      rcases getLeastConnPeer_effect now current held.rrp held.pc with busy | ok
      · rw [busy.1] at holding
        cases holding
      · obtain ⟨_rc, slot, there, _connected⟩ := ok
        rw [there]
        exact Option.some_ne_none slot
  | free now state holding released _later ih =>
      apply ih
      intro again
      cases again

/-! ### Every interleaving -/

structure Mirrors (state : Proxy ι n m) (balancer : Balancer ι n m) : Prop where
  up : balancer.up = state.up
  requests : ∀ who, (balancer.request who).map Request.core =
    (state.proxied who).map fun proxied => proxied.request.core

structure Kept (conf : ProxyConf) (up : Upstream n m) (state : Proxy ι n m) : Prop where
  tries : state.up.triesTotal = up.triesTotal
  sound : ∀ who proxied, state.proxied who = some proxied →
    proxied.Sound conf (conf.limit up.triesTotal)
  pointed : ∀ who proxied, state.proxied who = some proxied → proxied.request.Pointed
  balanced : ∃ balancer, Reach Balancer.step Disciplined (Balancer.launch up) balancer ∧
    Mirrors state balancer

section Runs

variable {conf : ProxyConf} {up : Upstream n m} {state after : Proxy ι n m}

theorem kept_launch : Kept conf up (Proxy.launch up : Proxy ι n m) where
  tries := rfl
  sound := by
    intro who proxied there
    cases there
  pointed := by
    intro who proxied there
    cases there
  balanced := ⟨Balancer.launch up, .start, rfl, fun _who => rfl⟩

/-- A new request, or an expected event of one that is there. -/
theorem proxyStep_cases {event : ProxyEvent ι} (taken : state.step conf event = some after) :
    (∃ who method noBuffering, event = .arrive who method noBuffering ∧
      state.proxied who = none ∧ after = { state with
        proxied := Function.update state.proxied who
          (some (conf.initRequest state.up method noBuffering)) }) ∨
    (∃ proxied out, state.proxied event.who = some proxied ∧ event.expected proxied = true ∧
      event.handle conf state.up proxied = some out ∧
      after = { up := out.1
                proxied := Function.update state.proxied event.who
                  (if event.keeps then some out.2 else none) }) := by
  unfold Proxy.step at taken
  cases there : state.proxied event.who with
  | none =>
      rw [there] at taken
      cases event with
      | arrive who method noBuffering =>
          cases taken
          exact .inl ⟨who, method, noBuffering, rfl, there, rfl⟩
      | _ => cases taken
  | some proxied =>
      rw [there] at taken
      have handled : (if event.expected proxied then
          (event.handle conf state.up proxied).map fun out =>
            ({ up := out.1
               proxied := Function.update state.proxied event.who
                 (if event.keeps then some out.2 else none) } : Proxy ι n m)
          else none) = some after := by
        cases event <;> exact taken
      rw [Option.ite_none_right_eq_some] at handled
      obtain ⟨expected, mapped⟩ := handled
      obtain ⟨out, ran, rfl⟩ := Option.map_eq_some_iff.mp mapped
      exact .inr ⟨proxied, out, rfl, expected, ran, rfl⟩

private theorem mirrors_update {balancer : Balancer ι n m} (mirrors : Mirrors state balancer)
    {who : ι} {request : Option (Request n m)} {proxied : Option (Proxied n m)}
    (same : request.map Request.core = proxied.map fun one => one.request.core) (other : ι) :
    (Function.update balancer.request who request other).map Request.core =
      (Function.update state.proxied who proxied other).map fun one => one.request.core := by
  by_cases here : other = who
  · subst here
    rw [Function.update_self, Function.update_self, same]
  · rw [Function.update_of_ne here, Function.update_of_ne here, mirrors.requests other]

omit [DecidableEq ι] in
private theorem sound_initRequest {current : Upstream n m} (method : Method) (noBuffering : Bool)
    (tries : current.triesTotal = up.triesTotal) :
    (conf.initRequest current method noBuffering).Sound conf (conf.limit up.triesTotal) where
  held := rfl
  budget := by
    change 0 + max 1 (conf.limit current.triesTotal) ≤ max 1 (conf.limit up.triesTotal)
    rw [tries, Nat.zero_add]
  sent := Nat.le_refl _
  unsent := by
    intro holds
    cases holds
  once := fun _once => rfl
  fresh := fun _once _phase => rfl

private theorem proxied_update {P : Proxied n m → Prop} (who : ι)
    {changed : Option (Proxied n m)}
    (all : ∀ other proxied, state.proxied other = some proxied → P proxied)
    (here : ∀ proxied, changed = some proxied → P proxied) (other : ι) (proxied : Proxied n m)
    (there : Function.update state.proxied who changed other = some proxied) : P proxied := by
  by_cases same : other = who
  · subst same
    rw [Function.update_self] at there
    exact here proxied there
  · rw [Function.update_of_ne same] at there
    exact all other proxied there

private theorem Kept.arrive (kept : Kept conf up state) {who : ι}
    (absent : state.proxied who = none) (method : Method) (noBuffering : Bool) :
    Kept conf up { state with
      proxied := Function.update state.proxied who
        (some (conf.initRequest state.up method noBuffering)) } := by
  obtain ⟨balancer, reached, mirrors⟩ := kept.balanced
  have free : balancer.request who = none := by
    have same := mirrors.requests who
    rw [absent] at same
    exact Option.map_eq_none_iff.mp same
  have taken : balancer.step (.arrive who) = some { balancer with
      request := Function.update balancer.request who (some balancer.up.arrival) } := by
    unfold Balancer.step
    dsimp only
    rw [free]
  have next : Reach Balancer.step Disciplined (Balancer.launch up) _ :=
    reached.next (.arrive who) trivial taken
  refine ⟨kept.tries, proxied_update who kept.sound ?_, proxied_update who kept.pointed ?_, _, next,
    mirrors.up, mirrors_update mirrors ?_⟩
  · intro proxied there
    rw [← Option.some.inj there]
    exact sound_initRequest method noBuffering kept.tries
  · intro proxied there
    rw [← Option.some.inj there]
    intro holding
    cases holding
  · rw [mirrors.up]
    rfl

omit [DecidableEq ι] in
private theorem finished_of_free {who : ι} {moment : Moment} {proxied : Proxied n m}
    {out : Upstream n m × Proxied n m} {current : Upstream n m}
    (ran : (ProxyEvent.free who moment).handle conf current proxied = some out) :
    ∃ rc, out.2.phase = .finished rc := by
  change finalizeRequest moment current proxied (-4) = some out at ran
  unfold finalizeRequest at ran
  split at ran
  · rename_i rc ended
    cases ran
    exact ⟨rc, ended⟩
  · obtain ⟨freed, _released, rfl⟩ := Option.map_eq_some_iff.mp ran
    exact ⟨-4, rfl⟩

omit [DecidableEq ι] in
/-- A request is freed without a peer. -/
private theorem idle_of_freed {event : ProxyEvent ι} (freed : event.keeps = false)
    {proxied : Proxied n m} {out : Upstream n m × Proxied n m} {current : Upstream n m} {most : Nat}
    (ran : event.handle conf current proxied = some out) (sound : out.2.Sound conf most) :
    out.2.request.sockaddr = false := by
  cases event with
  | free who moment =>
      obtain ⟨rc, ended⟩ := finished_of_free ran
      rw [sound.held, ended]
      rfl
  | _ => cases freed

theorem Kept.of_step {event : ProxyEvent ι} (kept : Kept conf up state)
    (taken : state.step conf event = some after) : Kept conf up after := by
  obtain ⟨who, method, noBuffering, rfl, absent, rfl⟩ | ⟨proxied, out, there, expected, ran, rfl⟩ :=
    proxyStep_cases taken
  · exact kept.arrive absent method noBuffering
  · have handled := handle_handled (kept.sound event.who proxied there) expected ran
    obtain ⟨balancer, reached, mirrors⟩ := kept.balanced
    have same := mirrors.requests event.who
    rw [there, Option.map_some] at same
    obtain ⟨request, found, core⟩ := Option.map_eq_some_iff.mp same
    obtain ⟨next, final, later, nextUp, requests, lastCore⟩ :=
      handled.uses.reach found core mirrors.up
    have tries : out.1.triesTotal = up.triesTotal := handled.uses.triesTotal.trans kept.tries
    have kind : ∀ {P : Proxied n m → Prop}, P out.2 →
        ∀ one, (if event.keeps then some out.2 else none) = some one → P one := by
      intro P last one here
      rw [Option.ite_none_right_eq_some] at here
      rw [← Option.some.inj here.2]
      exact last
    have sound := proxied_update event.who kept.sound (kind handled.sound)
    have pointed := proxied_update event.who kept.pointed
      (kind (handled.uses.pointed (kept.pointed event.who proxied there)))
    rcases Bool.eq_false_or_eq_true event.keeps with keeps | freed
    · refine ⟨tries, sound, pointed, next, reached.trans later, nextUp, ?_⟩
      dsimp only
      rw [requests, keeps]
      apply mirrors_update mirrors
      rw [Option.map_some, lastCore]
      rfl
    · have last : next.request event.who = some final := by
        rw [requests, Function.update_self]
      have idle : final.sockaddr = false :=
        (Prod.mk.inj (Prod.mk.inj lastCore).2).1.trans (idle_of_freed freed ran handled.sound)
      have disciplined : Disciplined next (.leave event.who) := by
        change next.sockaddr event.who = false
        unfold Balancer.sockaddr
        rw [last]
        exact idle
      have left : next.step (.leave event.who) = some { next with
          request := Function.update next.request event.who none } := by
        unfold Balancer.step
        dsimp only
        rw [last, Option.map_some]
      refine ⟨tries, sound, pointed, _, (reached.trans later).next _ disciplined left, nextUp, ?_⟩
      dsimp only
      rw [requests, Function.update_idem, freed]
      exact mirrors_update mirrors rfl

theorem kept_of_reach
    (reach : Reach (Proxy.step conf) (fun _ _ => True) (Proxy.launch up) state) :
    Kept conf up state :=
  reach.invariant (Kept conf up) kept_launch
    (fun _before _event _after taken _ kept => kept.of_step taken)

def Proxy.held (state : Proxy ι n m) (who : ι) : Option (Fin n ⊕ Fin m) :=
  (state.proxied who).bind fun proxied => proxied.request.held

def Proxy.holders [Fintype ι] (state : Proxy ι n m) (slot : Fin n ⊕ Fin m) : Finset ι :=
  Custody.holders state.held slot

omit [DecidableEq ι] in
theorem Mirrors.held {balancer : Balancer ι n m} (mirrors : Mirrors state balancer) :
    balancer.held = state.held := by
  funext who
  have same := mirrors.requests who
  unfold Balancer.held Proxy.held
  cases request : balancer.request who with
  | none =>
      rw [request] at same
      rw [Option.map_eq_none_iff.mp same.symm]
      rfl
  | some one =>
      rw [request] at same
      obtain ⟨proxied, there, core⟩ := Option.map_eq_some_iff.mp same.symm
      obtain ⟨rrp, rest⟩ := Prod.mk.inj core
      rw [there]
      change one.held = proxied.request.held
      unfold Request.held
      rw [rrp, (Prod.mk.inj rest).1]

theorem proxy_exact [Fintype ι] (room : Fintype.card ι < 2 ^ 64) (built : Built up)
    (kept : Kept conf up state) :
    (∀ slot peer, state.up.peerAt slot = some peer →
      peer.conns = (state.holders slot).card ∧
        (peer.maxConns ≠ 0 → peer.conns ≤ peer.maxConns)) ∧
      ∀ who slot, state.held who = some slot → ∃ peer, state.up.peerAt slot = some peer := by
  obtain ⟨balancer, reached, mirrors⟩ := kept.balanced
  have exactly := exact_of_reach room built reached
  have holders : ∀ slot, balancer.holders slot = state.holders slot := by
    intro slot
    unfold Balancer.holders Proxy.holders
    rw [mirrors.held]
  rw [← mirrors.up, ← mirrors.held]
  refine ⟨fun slot peer found => ⟨?_, exactly.capped slot peer found⟩, exactly.present⟩
  rw [← holders]
  exact exactly.counted slot peer found

end Runs

/-! ### Every event can be handled -/

def Freeable (up : Upstream n m) (request : Request n m) : Prop :=
  request.sockaddr = true →
    ∀ now state, (freeRoundRobinPeer now up request.rrp request.pc state).isSome = true

section Handlers

variable {conf : ProxyConf} {moment : Moment} {up : Upstream n m} {proxied : Proxied n m}

theorem freeRoundRobinPeer_isSome {rrp : RrPeerData n m} {slot : Fin n ⊕ Fin m} {peer : RrPeer}
    (current : rrp.current = some slot) (present : up.peerAt slot = some peer) (now : Int)
    (pc : PeerConnection) (state : Nat) :
    (freeRoundRobinPeer now up rrp pc state).isSome = true := by
  unfold freeRoundRobinPeer
  rw [current]
  cases slot with
  | inl i => rfl
  | inr i =>
      obtain ⟨backup, next, _same⟩ := Option.map_eq_some_iff.mp present
      dsimp only
      rw [next]
      rfl

theorem freeable_got (now : Int) (up : Upstream n m) (request : Request n m)
    (idle : request.sockaddr = false) :
    Freeable (getLeastConnPeer now up request.rrp request.pc).up
      (request.got (getLeastConnPeer now up request.rrp request.pc)) := by
  obtain ⟨inPrimary, inBackup, _, _, ends⟩ := getLeastConnPeer_ends now up request.rrp request.pc
  generalize getLeastConnPeer now up request.rrp request.pc = out at ends
  intro holding later state
  change (request.sockaddr || out.rc == .ok) = true at holding
  rw [idle, Bool.false_or] at holding
  cases ends with
  | primary pick group found => rfl
  | turned backup pick group nothing next found => rfl
  | backup backup pick group next found => rfl
  | noBackup name group nothing next => cases holding
  | neither name backup group nothing next nothingThere => cases holding
  | exhausted name group nothing => cases holding

theorem freePeer_isSome (moment : Moment) (freeable : Freeable up proxied.request) (state : Nat) :
    ∃ after, proxied.freePeer moment up state = some after ∧ Freeable after.1 after.2.request := by
  unfold Proxied.freePeer
  split
  · rename_i holding
    obtain ⟨freed, released⟩ := Option.isSome_iff_exists.mp (freeable holding moment.now state)
    rw [released]
    exact ⟨_, rfl, fun again => by cases again⟩
  · exact ⟨_, rfl, freeable⟩

theorem finalizeRequest_isSome (freeable : Freeable up proxied.request) (rc : Int) :
    (finalizeRequest moment up proxied rc).isSome = true := by
  obtain ⟨after, released, _freeable⟩ := freePeer_isSome moment freeable 0
  unfold finalizeRequest
  split
  · rfl
  · rw [released]
    rfl

theorem upstreamNext_isSome (freeable : Freeable up proxied.request) (ftType : FtType) :
    (upstreamNext conf moment up proxied ftType).isSome = true := by
  obtain ⟨after, released, later⟩ := freePeer_isSome moment freeable ftType.peerState
  unfold upstreamNext
  rw [released, Option.bind_some]
  split
  · exact finalizeRequest_isSome later _
  · split
    · exact finalizeRequest_isSome later _
    · rfl

theorem sendRequest_isSome (freeable : Freeable up proxied.request) (connected : Bool)
    (sending : SendRc) : (sendRequest conf moment up proxied connected sending).isSome = true := by
  have begun : Freeable up proxied.begin.request := freeable
  unfold sendRequest
  split
  · exact upstreamNext_isSome freeable _
  · cases sending with
    | error => exact upstreamNext_isSome begun _
    | special status => exact finalizeRequest_isSome begun _
    | unwatched => exact finalizeRequest_isSome begun _
    | again => rfl
    | ok => rfl

theorem upstreamConnect_isSome (idle : proxied.request.sockaddr = false) (connecting : ConnectRc) :
    (upstreamConnect conf moment up proxied connecting).isSome = true := by
  have freeable := freeable_got moment.now up proxied.request idle
  unfold upstreamConnect
  dsimp only
  generalize getLeastConnPeer moment.now up proxied.request.rrp proxied.request.pc = out at *
  have tried : Freeable out.up (proxied.tried out).request := freeable
  have fresh : Freeable out.up (proxied.tried out).fresh.request := freeable
  cases out.rc with
  | busy => exact upstreamNext_isSome tried _
  | ok =>
      cases connecting with
      | error => exact finalizeRequest_isSome tried _
      | declined => exact upstreamNext_isSome tried _
      | unprepared => exact finalizeRequest_isSome tried _
      | again => rfl
      | ok connected sending => exact sendRequest_isSome fresh connected sending

theorem processHeader_isSome (freeable : Freeable up proxied.request) (connected : Bool)
    (reading : HeaderRc) :
    (processHeader conf moment up proxied connected reading).isSome = true := by
  unfold processHeader
  split
  · exact upstreamNext_isSome freeable _
  · cases reading with
    | again => rfl
    | failed => exact finalizeRequest_isSome freeable _
    | closed => exact upstreamNext_isSome freeable _
    | invalid => exact upstreamNext_isSome freeable _
    | ok header =>
        dsimp only
        split
        · exact upstreamNext_isSome freeable _
        · unfold passHeader
          split
          · exact finalizeRequest_isSome freeable _
          · split
            · exact finalizeRequest_isSome freeable _
            · unfold sendResponse
              split
              · exact finalizeRequest_isSome freeable _
              · rfl

omit [DecidableEq ι] in
theorem handle_isSome {event : ProxyEvent ι} (freeable : Freeable up proxied.request)
    (held : proxied.request.sockaddr = proxied.phase.holds)
    (expected : event.expected proxied = true) :
    (event.handle conf up proxied).isSome = true := by
  cases event with
  | arrive who method noBuffering => cases expected
  | connect who moment connecting =>
      have phase : proxied.phase = .connect := of_decide_eq_true expected
      rw [phase] at held
      exact upstreamConnect_isSome held connecting
  | writable who moment connected sending =>
      unfold ProxyEvent.handle
      dsimp only
      split
      · rfl
      · exact sendRequest_isSome freeable connected sending
  | writeTimeout who moment => exact upstreamNext_isSome freeable .timeout
  | readable who moment connected reading => exact processHeader_isSome freeable connected reading
  | readTimeout who moment => exact upstreamNext_isSome freeable .timeout
  | body who moment sending => exact sendRequest_isSome freeable true sending
  | finish who moment rc => exact finalizeRequest_isSome freeable rc
  | free who moment => exact finalizeRequest_isSome freeable (-4)

end Handlers

/-- What a request holds is one of the peers. -/
theorem Kept.freeable [Fintype ι] (room : Fintype.card ι < 2 ^ 64) {conf : ProxyConf}
    {up : Upstream n m} (built : Built up) {state : Proxy ι n m} (kept : Kept conf up state)
    {who : ι} {proxied : Proxied n m} (there : state.proxied who = some proxied) :
    Freeable state.up proxied.request := by
  intro holding now result
  obtain ⟨slot, current⟩ :=
    Option.ne_none_iff_exists'.mp (kept.pointed who proxied there holding)
  have held : state.held who = some slot := by
    unfold Proxy.held Request.held
    rw [there, Option.bind_some, if_pos holding, current]
  obtain ⟨peer, present⟩ := (proxy_exact room built kept).2 who slot held
  exact freeRoundRobinPeer_isSome current present now proxied.request.pc result

/-! ### What every run keeps -/

private theorem card_address : Fintype.card Address < 2 ^ 64 := by
  rw [Fintype.card_fin]
  decide

section Runs

variable {conf : ProxyConf} {up : Upstream n m}

/-- However the handlers of all requests interleave and whatever the network
answers, a peer's counter is the number of requests that hold it and stays
within its limit; a request holds a peer exactly while it exchanges with it or
passes its response on. -/
theorem proxied_conns_exact (built : Built up) {state : Proxy Address n m}
    (reach : Reach (Proxy.step conf) (fun _ _ => True) (Proxy.launch up) state) :
    (∀ slot peer, state.up.peerAt slot = some peer →
      peer.conns = (state.holders slot).card ∧
        (peer.maxConns ≠ 0 → peer.conns ≤ peer.maxConns)) ∧
      ∀ who proxied, state.proxied who = some proxied →
        proxied.request.sockaddr = proxied.phase.holds := by
  have kept := kept_of_reach reach
  exact ⟨(proxy_exact card_address built kept).1, fun who proxied there =>
    (kept.sound who proxied there).held⟩

/-- `proxy_next_upstream error timeout`, as it is by default. -/
def sampleProxyConf : ProxyConf where
  nextUpstream := [.error, .timeout]
  nextUpstreamTries := 0
  nextUpstreamTimeout := 0
  wordless := by decide

def firstRequest : Address := ⟨16, by decide⟩

def sampleProxyEvents : List (ProxyEvent Address) :=
  let second : Address := ⟨32, by decide⟩
  let moment : Moment := { now := 5, elapsed := 0, clientError := false }
  [.arrive firstRequest .post false, .connect firstRequest moment .declined,
    .connect firstRequest moment (.ok true .ok), .arrive second .get false,
    .connect second moment .again]

theorem proxied_conns_exact_sample :
    ∃ state, run (guarded (Proxy.step sampleProxyConf) (fun _ _ => True))
        (Proxy.launch sampleUpstream) sampleProxyEvents = some state ∧
      (state.holders (.inl 0)).card = 0 ∧ (state.holders (.inl 1)).card = 2 := by
  have counts : (run (guarded (Proxy.step sampleProxyConf) (fun _ _ => True))
      (Proxy.launch sampleUpstream) sampleProxyEvents).map
      (fun state => ((state.up.primary.peer 0).conns, (state.up.primary.peer 1).conns)) =
        some (0, 2) := by decide +kernel
  obtain ⟨state, ran, conns⟩ := Option.map_eq_some_iff.mp counts
  obtain ⟨first, second⟩ := Prod.mk.inj conns
  have exactly := (proxied_conns_exact sampleUpstream_built (reach_of_guarded_run ran)).1
  refine ⟨state, ran, ?_, ?_⟩
  · rw [← (exactly (.inl 0) _ rfl).1]
    exact first
  · rw [← (exactly (.inl 1) _ rfl).1]
    exact second

/-- No request asks for more peers than `next_upstream_tries` and the peers
allow, one at least, or is sent more often than that; and one that must not be
sent twice is sent once at most. -/
theorem proxied_tries_bounded {state : Proxy ι n m}
    (reach : Reach (Proxy.step conf) (fun _ _ => True) (Proxy.launch up) state)
    {who : ι} {proxied : Proxied n m} (there : state.proxied who = some proxied) :
    proxied.attempts ≤ max 1 (conf.limit up.triesTotal) ∧ proxied.sends ≤ proxied.attempts ∧
      (proxied.Once conf → proxied.sends ≤ 1) := by
  have sound := (kept_of_reach reach).sound who proxied there
  refine ⟨Nat.le_trans (Nat.le_add_right _ _) sound.budget, sound.sent, ?_⟩
  intro once
  rw [sound.once once]
  exact Bool.toNat_le _

/-- The first request of the sample asked twice and was sent once. -/
theorem proxied_tries_bounded_sample :
    ∃ state proxied, run (guarded (Proxy.step sampleProxyConf) (fun _ _ => True))
        (Proxy.launch sampleUpstream) sampleProxyEvents = some state ∧
      state.proxied firstRequest = some proxied ∧ proxied.attempts = 2 ∧
      2 ≤ max 1 (sampleProxyConf.limit sampleUpstream.triesTotal) ∧ proxied.sends ≤ 1 := by
  have counts : ((run (guarded (Proxy.step sampleProxyConf) (fun _ _ => True))
      (Proxy.launch sampleUpstream) sampleProxyEvents).bind
      fun state => (state.proxied firstRequest).map fun proxied =>
        (proxied.attempts, proxied.method)) = some (2, .post) := by decide +kernel
  obtain ⟨state, ran, found⟩ := Option.bind_eq_some_iff.mp counts
  obtain ⟨proxied, there, both⟩ := Option.map_eq_some_iff.mp found
  obtain ⟨attempts, method⟩ := Prod.mk.inj both
  obtain ⟨bounded, _sent, once⟩ := proxied_tries_bounded (reach_of_guarded_run ran) there
  rw [attempts] at bounded
  refine ⟨state, proxied, ran, there, attempts, bounded, once (.inr ⟨?_, ?_⟩)⟩
  · rw [method]
    rfl
  · decide

/-- The requests whose event it is not hold on to their peers. -/
private theorem held_others {state after : Proxy Address n m} {event : ProxyEvent Address}
    (taken : state.step conf event = some after) (other : Address) (apart : other ≠ event.who) :
    after.held other = state.held other := by
  unfold Proxy.held
  obtain ⟨who, method, noBuffering, rfl, _absent, rfl⟩ | ⟨_proxied, _out, _, _, _, rfl⟩ :=
    proxyStep_cases taken
  · change other ≠ who at apart
    dsimp only
    rw [Function.update_of_ne apart]
  · dsimp only
    rw [Function.update_of_ne apart]

/-- An event that finds its request in the right phase is handled, and each
counter changes by what the request has given back and taken: no handler frees
a peer that is not there, or one twice. -/
theorem proxied_never_stuck (built : Built up) {state : Proxy Address n m}
    (reach : Reach (Proxy.step conf) (fun _ _ => True) (Proxy.launch up) state)
    {event : ProxyEvent Address} {proxied : Proxied n m}
    (there : state.proxied event.who = some proxied) (expected : event.expected proxied = true) :
    ∃ after, state.step conf event = some after ∧
      ∀ slot before later, state.up.peerAt slot = some before →
        after.up.peerAt slot = some later →
        later.conns + (if state.held event.who = some slot then 1 else 0) =
          before.conns + (if after.held event.who = some slot then 1 else 0) := by
  have kept := kept_of_reach reach
  have handled : (event.handle conf state.up proxied).isSome = true :=
    handle_isSome (kept.freeable card_address built there)
      (kept.sound event.who proxied there).held expected
  obtain ⟨out, ran⟩ := Option.isSome_iff_exists.mp handled
  have taken : state.step conf event = some
      { up := out.1
        proxied := Function.update state.proxied event.who
          (if event.keeps then some out.2 else none) } := by
    unfold Proxy.step
    rw [there]
    cases event with
    | arrive who method noBuffering => cases expected
    | _ =>
        dsimp only
        rw [if_pos expected, ran, Option.map_some]
  refine ⟨_, taken, ?_⟩
  intro slot before later was isNow
  rw [((proxy_exact card_address built kept).1 slot before was).1,
    ((proxy_exact card_address built (kept.of_step taken)).1 slot later isNow).1]
  exact Custody.card_holders_change (held_others taken) slot

def sampleTimeout : ProxyEvent Address :=
  .readTimeout firstRequest { now := 65, elapsed := 60000, clientError := false }

/-- Both requests hold the second peer, and the first one gives it back once. -/
theorem proxied_never_stuck_sample :
    ∃ state after, run (guarded (Proxy.step sampleProxyConf) (fun _ _ => True))
        (Proxy.launch sampleUpstream) sampleProxyEvents = some state ∧
      state.step sampleProxyConf sampleTimeout = some after ∧
      (state.up.primary.peer 1).conns = 2 ∧ (after.up.primary.peer 1).conns = 1 := by
  have facts : ((run (guarded (Proxy.step sampleProxyConf) (fun _ _ => True))
      (Proxy.launch sampleUpstream) sampleProxyEvents).bind fun state =>
        (state.proxied sampleTimeout.who).bind fun proxied =>
          (state.step sampleProxyConf sampleTimeout).map fun after =>
            (proxied.phase, (state.up.primary.peer 1).conns,
              decide (state.held sampleTimeout.who = some (.inl 1)),
              (after.held sampleTimeout.who).isNone)) =
        some (.exchange, 2, true, true) := by decide +kernel
  obtain ⟨state, ran, found⟩ := Option.bind_eq_some_iff.mp facts
  obtain ⟨proxied, there, stepped⟩ := Option.bind_eq_some_iff.mp found
  obtain ⟨after, taken, values⟩ := Option.map_eq_some_iff.mp stepped
  obtain ⟨phase, rest⟩ := Prod.mk.inj values
  obtain ⟨conns, held⟩ := Prod.mk.inj rest
  obtain ⟨before, later⟩ := Prod.mk.inj held
  obtain ⟨next, handled, counted⟩ := proxied_never_stuck sampleUpstream_built
    (reach_of_guarded_run ran) there (decide_eq_true phase)
  have same : next = after := Option.some.inj (handled.symm.trans taken)
  subst same
  have once := counted (.inl 1) _ _ rfl rfl
  rw [of_decide_eq_true before, Option.isNone_iff_eq_none.mp later, conns, if_pos rfl,
    if_neg nofun] at once
  exact ⟨state, next, ran, handled, conns, Nat.succ.inj once⟩

end Runs

end AutoBurst.Nginx
