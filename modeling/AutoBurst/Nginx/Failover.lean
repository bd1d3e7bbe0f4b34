/-
One proxied request from its arrival to its end, with its retries:
`ngx_http_upstream_init_request`, `_connect`, `_send_request`,
`_process_header`, `_test_next`, `_next`, `_cleanup` and `_finalize_request` of
nginx/src/http/ngx_http_upstream.c, over a location without cache, store, SSL
and keepalive connections.

What the network, the client and the allocator answer comes with the event.
`ngx_http_upstream_next` calls `ngx_http_upstream_connect`, which may call it
again; each of these calls is an event of its own here, so that more
interleavings are covered than one process has. `none` is a dereferenced null
pointer.
-/

import AutoBurst.Nginx.Requests
import AutoBurst.Nginx.Retries

namespace AutoBurst.Nginx

open Runs

/-! ### What a request may try again -/

/-- `NGX_HTTP_UPSTREAM_FT_*`, as far as they are set in a location or passed to
`ngx_http_upstream_next`. -/
inductive FtType
  | error
  | timeout
  | invalidHeader
  | http500
  | http502
  | http503
  | http504
  | http403
  | http404
  | http429
  | nonIdempotent
  | noLive
deriving DecidableEq, Repr

/-- `ngx_http_upstream_next_errors` -/
def nextError : Nat → Option FtType
  | 500 => some .http500
  | 502 => some .http502
  | 503 => some .http503
  | 504 => some .http504
  | 403 => some .http403
  | 404 => some .http404
  | 429 => some .http429
  | _ => none

def FtType.status : FtType → Int
  | .timeout => 504
  | .http504 => 504
  | .http500 => 500
  | .http503 => 503
  | .http403 => 403
  | .http404 => 404
  | .http429 => 429
  | _ => 502

def peerNext : Nat := 2

def FtType.peerState : FtType → Nat
  | .http403 => peerNext
  | .http404 => peerNext
  | _ => peerFailed

inductive Method
  | get
  | head
  | post
  | put
  | delete
  | mkcol
  | copy
  | move
  | options
  | propfind
  | proppatch
  | lock
  | unlock
  | patch
  | trace
  | connect
deriving DecidableEq, Repr

/-- `r->method & (NGX_HTTP_POST|NGX_HTTP_LOCK|NGX_HTTP_PATCH)` -/
def Method.nonIdempotent : Method → Bool
  | .post => true
  | .lock => true
  | .patch => true
  | _ => false

/-- The directives `proxy_next_upstream*`. Their table has no word for
`NGX_HTTP_UPSTREAM_FT_NOLIVE`, and `off` is the empty list. -/
structure ProxyConf where
  nextUpstream : List FtType
  nextUpstreamTries : Nat
  nextUpstreamTimeout : Nat
  wordless : FtType.noLive ∉ nextUpstream

/-! ### A request -/

/-- What is called next: `ngx_http_upstream_connect`, the handlers of the
connection, those of the response, or nothing any more. -/
inductive Phase
  | connect
  | exchange
  | respond
  | finished (rc : Int)
deriving DecidableEq, Repr

/-- `attempts` and `sends` are ghosts: the calls of `u->peer.get` and the times
the request was begun to be sent. -/
structure Proxied (n m : Nat) where
  request : Request n m
  method : Method
  requestBodyNoBuffering : Bool
  phase : Phase
  requestSent : Bool
  headerSent : Bool
  attempts : Nat
  sends : Nat

/-- The time in seconds, the milliseconds since `u->peer.start_time`, and
`r->connection->error`. -/
structure Moment where
  now : Int
  elapsed : Nat
  clientError : Bool

inductive SendRc
  | error
  | special (status : Nat)
  | again
  | ok
  | unwatched
deriving DecidableEq, Repr

inductive ConnectRc
  | error
  | declined
  | unprepared
  | again
  | ok (connected : Bool) (sending : SendRc)
deriving DecidableEq, Repr

/-- `intercepted` and `finalized` say that `ngx_http_upstream_intercept_errors`
or `ngx_http_upstream_process_headers` has ended the request. -/
structure Header where
  status : Nat
  intercepted : Bool
  finalized : Option Int
deriving DecidableEq, Repr

inductive HeaderRc
  | again
  | failed
  | closed
  | invalid
  | ok (header : Header)
deriving DecidableEq, Repr

section Request

variable {n m : Nat} (conf : ProxyConf) (moment : Moment) (up : Upstream n m)
  (proxied : Proxied n m)

def Proxied.freePeer (state : Nat) : Option (Upstream n m × Proxied n m) :=
  if proxied.request.sockaddr then
    (freeRoundRobinPeer moment.now up proxied.request.rrp proxied.request.pc state).map fun freed =>
      (freed.1,
        { proxied with request := { proxied.request with pc := freed.2, sockaddr := false } })
  else some (up, proxied)

/-- A request that was finalized already has no `u->cleanup`. -/
def finalizeRequest (rc : Int) : Option (Upstream n m × Proxied n m) :=
  match proxied.phase with
  | .finished _rc => some (up, proxied)
  | _ =>
      (proxied.freePeer moment up 0).map fun freed =>
        (freed.1, { freed.2 with phase := .finished rc })

def Proxied.needed (ftType : FtType) : List FtType :=
  if proxied.requestSent && proxied.method.nonIdempotent then [ftType, .nonIdempotent]
  else [ftType]

def Proxied.retries (ftType : FtType) : Bool :=
  (proxied.needed ftType).all (fun kind => decide (kind ∈ conf.nextUpstream)) &&
    !(proxied.requestSent && proxied.requestBodyNoBuffering) &&
    !(conf.nextUpstreamTimeout != 0 && decide (conf.nextUpstreamTimeout ≤ moment.elapsed))

def upstreamNext (ftType : FtType) : Option (Upstream n m × Proxied n m) :=
  (proxied.freePeer moment up ftType.peerState).bind fun freed =>
    if moment.clientError then finalizeRequest moment freed.1 freed.2 499
    else if freed.2.request.pc.tries = 0 ∨ freed.2.retries conf moment ftType = false then
      finalizeRequest moment freed.1 freed.2 ftType.status
    else some (freed.1, { freed.2 with phase := .connect })

/-- `request_sent` is set before anything is written. -/
def Proxied.begin : Proxied n m :=
  { proxied with
    requestSent := true
    sends := if proxied.requestSent then proxied.sends else proxied.sends + 1 }

def sendRequest (connected : Bool) (sending : SendRc) : Option (Upstream n m × Proxied n m) :=
  if !proxied.requestSent && !connected then upstreamNext conf moment up proxied .error
  else
    match sending with
    | .error => upstreamNext conf moment up proxied.begin .error
    | .special status => finalizeRequest moment up proxied.begin status
    | .unwatched => finalizeRequest moment up proxied.begin 500
    | .again => some (up, proxied.begin)
    | .ok => some (up, proxied.begin)

def Proxied.tried (out : Outcome n m) : Proxied n m :=
  { proxied with request := proxied.request.got out, attempts := proxied.attempts + 1 }

def Proxied.fresh : Proxied n m := { proxied with requestSent := false, phase := .exchange }

def upstreamConnect (connecting : ConnectRc) : Option (Upstream n m × Proxied n m) :=
  let out := getLeastConnPeer moment.now up proxied.request.rrp proxied.request.pc
  let tried := proxied.tried out
  match out.rc with
  | .busy => upstreamNext conf moment out.up tried .noLive
  | .ok =>
      match connecting with
      | .error => finalizeRequest moment out.up tried 500
      | .declined => upstreamNext conf moment out.up tried .error
      | .unprepared => finalizeRequest moment out.up tried 500
      | .again => some (out.up, tried.fresh)
      | .ok connected sending => sendRequest conf moment out.up tried.fresh connected sending

/-- `none` is NGX_DECLINED: the answer is passed on. -/
def testNext (status : Nat) : Option FtType :=
  (nextError status).filter fun ftType =>
    decide (1 < proxied.request.pc.tries) && proxied.retries conf moment ftType

/-- A second header for the client ends the request. -/
def sendResponse : Option (Upstream n m × Proxied n m) :=
  if proxied.headerSent then finalizeRequest moment up proxied (-1)
  else some (up, { proxied with headerSent := true, phase := .respond })

def passHeader (header : Header) : Option (Upstream n m × Proxied n m) :=
  if header.intercepted && decide (300 ≤ header.status) then
    finalizeRequest moment up proxied header.status
  else
    match header.finalized with
    | some rc => finalizeRequest moment up proxied rc
    | none => sendResponse moment up proxied

def processHeader (connected : Bool) (reading : HeaderRc) : Option (Upstream n m × Proxied n m) :=
  if !proxied.requestSent && !connected then upstreamNext conf moment up proxied .error
  else
    match reading with
    | .again => some (up, proxied)
    | .failed => finalizeRequest moment up proxied 500
    | .closed => upstreamNext conf moment up proxied .error
    | .invalid => upstreamNext conf moment up proxied .invalidHeader
    | .ok header =>
        match (testNext conf moment proxied header.status).filter fun _ =>
            decide (300 ≤ header.status) with
        | some ftType => upstreamNext conf moment up proxied ftType
        | none => passHeader moment up proxied header

end Request

/-! ### All requests -/

/-- What happens to a request. `finish` is an end that the other functions of
the file bring about: the response is through or broken off, or the client is
gone; `free` is `ngx_http_free_request`, which runs `ngx_http_upstream_cleanup`. -/
inductive ProxyEvent (ι : Type)
  | arrive (who : ι) (method : Method) (requestBodyNoBuffering : Bool)
  | connect (who : ι) (moment : Moment) (connecting : ConnectRc)
  | writable (who : ι) (moment : Moment) (connected : Bool) (sending : SendRc)
  | writeTimeout (who : ι) (moment : Moment)
  | readable (who : ι) (moment : Moment) (connected : Bool) (reading : HeaderRc)
  | readTimeout (who : ι) (moment : Moment)
  | body (who : ι) (moment : Moment) (sending : SendRc)
  | finish (who : ι) (moment : Moment) (rc : Int)
  | free (who : ι) (moment : Moment)

structure Proxy (ι : Type) (n m : Nat) where
  up : Upstream n m
  proxied : ι → Option (Proxied n m)

section System

variable {ι : Type} [DecidableEq ι] {n m : Nat}

def Proxy.launch (up : Upstream n m) : Proxy ι n m := { up := up, proxied := fun _ => none }

/-- `next_upstream_tries` bounds what the peers allow. -/
def ProxyConf.limit (conf : ProxyConf) (tries : Nat) : Nat :=
  if conf.nextUpstreamTries ≠ 0 ∧ conf.nextUpstreamTries < tries then conf.nextUpstreamTries
  else tries

def ProxyConf.initRequest (conf : ProxyConf) (up : Upstream n m) (method : Method)
    (requestBodyNoBuffering : Bool) : Proxied n m :=
  { request := { up.arrival with
      pc := { up.arrival.pc with tries := conf.limit up.arrival.pc.tries } }
    method := method
    requestBodyNoBuffering := requestBodyNoBuffering
    phase := .connect
    requestSent := false
    headerSent := false
    attempts := 0
    sends := 0 }

def ProxyEvent.expected (proxied : Proxied n m) : ProxyEvent ι → Bool
  | .arrive _ _ _ => false
  | .connect _ _ _ => proxied.phase = .connect
  | .writable _ _ _ _ => proxied.phase = .exchange ∨ proxied.phase = .respond
  | .writeTimeout _ _ => proxied.phase = .exchange ∨ proxied.phase = .respond
  | .readable _ _ _ _ => proxied.phase = .exchange
  | .readTimeout _ _ => proxied.phase = .exchange
  | .body _ _ _ =>
      (proxied.phase = .exchange ∨ proxied.phase = .respond) ∧ proxied.requestSent = true ∧
        proxied.requestBodyNoBuffering = true
  | .finish _ _ _ => true
  | .free _ _ => true

def ProxyEvent.who : ProxyEvent ι → ι
  | .arrive who _ _ => who
  | .connect who _ _ => who
  | .writable who _ _ _ => who
  | .writeTimeout who _ => who
  | .readable who _ _ _ => who
  | .readTimeout who _ => who
  | .body who _ _ => who
  | .finish who _ _ => who
  | .free who _ => who

/-- What the handlers do. Once a header was sent, the write handler sends
nothing any more, but its timer still counts. -/
def ProxyEvent.handle (conf : ProxyConf) (up : Upstream n m) (proxied : Proxied n m) :
    ProxyEvent ι → Option (Upstream n m × Proxied n m)
  | .arrive _ _ _ => some (up, proxied)
  | .connect _ moment connecting => upstreamConnect conf moment up proxied connecting
  | .writable _ moment connected sending =>
      if proxied.headerSent then some (up, proxied)
      else sendRequest conf moment up proxied connected sending
  | .writeTimeout _ moment => upstreamNext conf moment up proxied .timeout
  | .readable _ moment connected reading => processHeader conf moment up proxied connected reading
  | .readTimeout _ moment => upstreamNext conf moment up proxied .timeout
  | .body _ moment sending => sendRequest conf moment up proxied true sending
  | .finish _ moment rc => finalizeRequest moment up proxied rc
  | .free _ moment => finalizeRequest moment up proxied (-4)

/-- Memory that was freed may hold a new request. -/
def ProxyEvent.keeps : ProxyEvent ι → Bool
  | .free _ _ => false
  | _ => true

def Proxy.step (conf : ProxyConf) (state : Proxy ι n m) (event : ProxyEvent ι) :
    Option (Proxy ι n m) :=
  match event, state.proxied event.who with
  | .arrive who method noBuffering, none =>
      some { state with
        proxied := Function.update state.proxied who
          (some (conf.initRequest state.up method noBuffering)) }
  | _, none => none
  | event, some proxied =>
      if event.expected proxied then
        (event.handle conf state.up proxied).map fun after =>
          { up := after.1
            proxied := Function.update state.proxied event.who
              (if event.keeps then some after.2 else none) }
      else none

end System

/-! ### What a handler does to the peers -/

inductive Uses {n m : Nat} : Upstream n m × Request n m → Upstream n m × Request n m → Prop
  | done (state : Upstream n m × Request n m) : Uses state state
  | get {up : Upstream n m} {request : Request n m} {last : Upstream n m × Request n m} (now : Int)
      (idle : request.sockaddr = false)
      (later : Uses ((getLeastConnPeer now up request.rrp request.pc).up,
        request.got (getLeastConnPeer now up request.rrp request.pc)) last) :
      Uses (up, request) last
  | free {up : Upstream n m} {request : Request n m} {last : Upstream n m × Request n m}
      {freed : Upstream n m × PeerConnection} (now : Int) (state : Nat)
      (holding : request.sockaddr = true)
      (taken : freeRoundRobinPeer now up request.rrp request.pc state = some freed)
      (later : Uses (freed.1, { request with pc := freed.2, sockaddr := false }) last) :
      Uses (up, request) last

theorem Uses.trans {n m : Nat} {first middle last : Upstream n m × Request n m}
    (before : Uses first middle) (after : Uses middle last) : Uses first last := by
  induction before with
  | done state => exact after
  | get now idle _later ih => exact .get now idle (ih after)
  | free now state holding taken _later ih => exact .free now state holding taken (ih after)

def Phase.holds : Phase → Bool
  | .connect => false
  | .exchange => true
  | .respond => true
  | .finished _rc => false

def Proxied.due {n m : Nat} (proxied : Proxied n m) : Nat :=
  match proxied.phase with
  | .connect => max 1 proxied.request.pc.tries
  | .exchange => proxied.request.pc.tries - 1
  | .respond => proxied.request.pc.tries - 1
  | .finished _rc => 0

/-- A request that must not be sent twice: its body is not kept, or its method
is not idempotent and the location does not allow for that. -/
def Proxied.Once {n m : Nat} (conf : ProxyConf) (proxied : Proxied n m) : Prop :=
  proxied.requestBodyNoBuffering = true ∨
    proxied.method.nonIdempotent = true ∧ FtType.nonIdempotent ∉ conf.nextUpstream

structure Proxied.Sound {n m : Nat} (conf : ProxyConf) (most : Nat) (proxied : Proxied n m) :
    Prop where
  held : proxied.request.sockaddr = proxied.phase.holds
  budget : proxied.attempts + proxied.due ≤ max 1 most
  sent : proxied.sends ≤ proxied.attempts
  unsent : proxied.phase.holds = true → proxied.requestSent = false →
    proxied.sends < proxied.attempts
  once : proxied.Once conf → proxied.sends = proxied.requestSent.toNat
  fresh : proxied.Once conf → proxied.phase = .connect → proxied.requestSent = false

/-- Within a handler: the peer may just have been got, and the phase is that of
the handler's caller. -/
structure Proxied.Going {n m : Nat} (conf : ProxyConf) (most : Nat) (proxied : Proxied n m) :
    Prop where
  going : ∀ rc, proxied.phase ≠ .finished rc
  spent : proxied.attempts ≤ max 1 most
  sent : proxied.sends ≤ proxied.attempts
  once : proxied.Once conf → proxied.sends = proxied.requestSent.toNat

structure Handled {n m : Nat} (conf : ProxyConf) (most : Nat) (up : Upstream n m)
    (proxied : Proxied n m) (after : Upstream n m × Proxied n m) : Prop where
  uses : Uses (up, proxied.request) (after.1, after.2.request)
  sound : after.2.Sound conf most

section Handlers

variable {n m : Nat} {conf : ProxyConf} {moment : Moment} {most : Nat} {up : Upstream n m}
  {proxied : Proxied n m} {after : Upstream n m × Proxied n m}

theorem freeRoundRobinPeer_tries {now : Int} {rrp : RrPeerData n m} {pc : PeerConnection}
    {state : Nat} {freed : Upstream n m × PeerConnection}
    (taken : freeRoundRobinPeer now up rrp pc state = some freed) :
    freed.2.tries ≤ pc.tries - 1 := by
  have fewer : (if rrp.single up then 0 else pc.tries - 1) ≤ pc.tries - 1 := by
    split
    · exact Nat.zero_le _
    · exact Nat.le_refl _
  unfold freeRoundRobinPeer at taken
  cases current : rrp.current with
  | none =>
      rw [current] at taken
      cases taken
  | some slot =>
      rw [current] at taken
      cases slot with
      | inl i =>
          have freedEq := Option.some.inj taken
          subst freedEq
          exact fewer
      | inr i =>
          obtain ⟨backup, next, freedEq⟩ := Option.map_eq_some_iff.mp taken
          subst freedEq
          exact fewer

theorem freePeer_spec {state : Nat} (taken : proxied.freePeer moment up state = some after) :
    Uses (up, proxied.request) (after.1, after.2.request) ∧
      after.2.request.sockaddr = false ∧
      after.2 = { proxied with request := after.2.request } ∧
      (proxied.request.sockaddr = true →
        after.2.request.pc.tries ≤ proxied.request.pc.tries - 1) := by
  unfold Proxied.freePeer at taken
  split at taken
  · rename_i holding
    obtain ⟨freed, released, rfl⟩ := Option.map_eq_some_iff.mp taken
    exact ⟨.free moment.now state holding released (.done _), rfl, rfl,
      fun _holding => freeRoundRobinPeer_tries released⟩
  · rename_i idle
    cases taken
    exact ⟨.done _, Bool.eq_false_iff.mpr idle, rfl, fun holding => absurd holding idle⟩

/-- A request that ends holds no peer. -/
theorem finalizeRequest_handled (going : proxied.Going conf most) {rc : Int}
    (taken : finalizeRequest moment up proxied rc = some after) :
    Handled conf most up proxied after := by
  have unfolded : finalizeRequest moment up proxied rc =
      (proxied.freePeer moment up 0).map fun freed =>
        (freed.1, { freed.2 with phase := .finished rc }) := by
    unfold finalizeRequest
    cases phase : proxied.phase with
    | finished earlier => exact absurd phase (going.going earlier)
    | connect => rfl
    | exchange => rfl
    | respond => rfl
  rw [unfolded] at taken
  obtain ⟨freed, released, rfl⟩ := Option.map_eq_some_iff.mp taken
  obtain ⟨uses, idle, same, _fewer⟩ := freePeer_spec released
  refine ⟨uses, ?_⟩
  rw [same]
  exact
    { held := idle
      budget := going.spent
      sent := going.sent
      unsent := fun phase => by cases phase
      once := going.once
      fresh := fun _once phase => by cases phase }

/-- A request that must not be sent twice is tried again only before it was sent. -/
theorem retries_spec {ftType : FtType} (again : proxied.retries conf moment ftType = true) :
    ftType ∈ conf.nextUpstream ∧ (proxied.Once conf → proxied.requestSent = false) := by
  unfold Proxied.retries at again
  rw [Bool.and_eq_true, Bool.and_eq_true, List.all_eq_true, Bool.not_eq_true',
    Bool.and_eq_false_iff] at again
  obtain ⟨⟨allowed, kept⟩, _intime⟩ := again
  have member : ∀ kind ∈ proxied.needed ftType, kind ∈ conf.nextUpstream :=
    fun kind listed => of_decide_eq_true (allowed kind listed)
  constructor
  · apply member
    unfold Proxied.needed
    split <;> exact List.mem_cons_self
  · intro once
    by_contra sent
    rw [Bool.not_eq_false] at sent
    rcases once with unbuffered | ⟨method, forbidden⟩
    · rw [sent, unbuffered] at kept
      rcases kept with impossible | impossible <;> cases impossible
    · apply forbidden
      apply member
      unfold Proxied.needed
      rw [sent, method]
      exact List.mem_cons_of_mem _ List.mem_cons_self

/-- Another try comes after a peer was freed and only if one is left. -/
theorem upstreamNext_handled (going : proxied.Going conf most)
    (budget : proxied.attempts + (proxied.request.pc.tries - 1) ≤ max 1 most) {ftType : FtType}
    (real : proxied.request.sockaddr = true ∨ ftType = .noLive)
    (taken : upstreamNext conf moment up proxied ftType = some after) :
    Handled conf most up proxied after := by
  obtain ⟨freed, released, next⟩ := Option.bind_eq_some_iff.mp taken
  obtain ⟨uses, idle, same, fewer⟩ := freePeer_spec released
  have still : freed.2.Going conf most := by
    rw [same]
    exact { going with }
  have ending : ∀ rc, finalizeRequest moment freed.1 freed.2 rc = some after →
      Handled conf most up proxied after := by
    intro rc ended
    have handled := finalizeRequest_handled still ended
    exact ⟨uses.trans handled.uses, handled.sound⟩
  split at next
  · exact ending _ next
  · split at next
    · exact ending _ next
    · rename_i again
      cases next
      rw [not_or, Bool.not_eq_false] at again
      obtain ⟨configured, fresh⟩ := retries_spec again.2
      have holding : proxied.request.sockaddr = true := by
        rcases real with holding | noLive
        · exact holding
        · rw [noLive] at configured
          exact absurd configured conf.wordless
      have left := fewer holding
      have one := again.1
      refine ⟨uses, ?_⟩
      rw [same] at still fresh ⊢
      exact
        { held := idle
          budget := by
            change proxied.attempts + max 1 freed.2.request.pc.tries ≤ max 1 most
            omega
          sent := still.sent
          unsent := fun phase => by cases phase
          once := still.once
          fresh := fun once _phase => fresh once }

theorem due_of_holds (phase : proxied.phase.holds = true) :
    proxied.due = proxied.request.pc.tries - 1 := by
  unfold Proxied.due
  cases here : proxied.phase with
  | exchange => rfl
  | respond => rfl
  | connect =>
      rw [here] at phase
      cases phase
  | finished rc =>
      rw [here] at phase
      cases phase

/-- A handler that leaves the request with its peer. -/
theorem sound_of_holding (going : proxied.Going conf most)
    (budget : proxied.attempts + (proxied.request.pc.tries - 1) ≤ max 1 most)
    (holding : proxied.request.sockaddr = true) (phase : proxied.phase.holds = true)
    (unsent : proxied.requestSent = false → proxied.sends < proxied.attempts) :
    proxied.Sound conf most where
  held := by rw [holding, phase]
  budget := by
    rw [due_of_holds phase]
    exact budget
  sent := going.sent
  unsent := fun _holds => unsent
  once := going.once
  fresh := by
    intro _once connect
    rw [connect] at phase
    cases phase

private theorem going_begin (going : proxied.Going conf most)
    (unsent : proxied.requestSent = false → proxied.sends < proxied.attempts) :
    proxied.begin.Going conf most := by
  refine ⟨going.going, going.spent, ?_, ?_⟩
  · change (if proxied.requestSent then proxied.sends else proxied.sends + 1) ≤ proxied.attempts
    split
    · exact going.sent
    · rename_i before
      exact unsent (Bool.eq_false_iff.mpr before)
  · intro once
    have sends := going.once once
    change (if proxied.requestSent then proxied.sends else proxied.sends + 1) = 1
    split
    · rename_i before
      rw [sends, before]
      rfl
    · rename_i before
      rw [sends, Bool.eq_false_iff.mpr before]
      rfl

theorem sendRequest_handled (going : proxied.Going conf most)
    (budget : proxied.attempts + (proxied.request.pc.tries - 1) ≤ max 1 most)
    (holding : proxied.request.sockaddr = true) (phase : proxied.phase.holds = true)
    (unsent : proxied.requestSent = false → proxied.sends < proxied.attempts) {connected : Bool}
    {sending : SendRc} (taken : sendRequest conf moment up proxied connected sending = some after) :
    Handled conf most up proxied after := by
  have still := going_begin going unsent
  have ends : ∀ rc, finalizeRequest moment up proxied.begin rc = some after →
      Handled conf most up proxied after := by
    intro rc ended
    have handled := finalizeRequest_handled still ended
    exact ⟨handled.uses, handled.sound⟩
  have stays : Handled conf most up proxied (up, proxied.begin) :=
    ⟨.done _, sound_of_holding still budget holding phase (fun before => by cases before)⟩
  unfold sendRequest at taken
  split at taken
  · exact upstreamNext_handled going budget (.inl holding) taken
  · cases sending with
    | error =>
        have handled := upstreamNext_handled still budget (.inl holding) taken
        exact ⟨handled.uses, handled.sound⟩
    | special status => exact ends _ taken
    | unwatched => exact ends _ taken
    | again =>
        cases taken
        exact stays
    | ok =>
        cases taken
        exact stays

private theorem getLeastConnPeer_tries (now : Int) (up : Upstream n m) (rrp : RrPeerData n m)
    (pc : PeerConnection) : (getLeastConnPeer now up rrp pc).pc.tries = pc.tries := by
  obtain ⟨inPrimary, inBackup, _, _, ends⟩ := getLeastConnPeer_ends now up rrp pc
  generalize getLeastConnPeer now up rrp pc = out at ends
  cases ends with
  | primary pick group found => rfl
  | turned backup pick group nothing next found => rfl
  | backup backup pick group next found => rfl
  | noBackup name group nothing next => rfl
  | neither name backup group nothing next nothingThere => rfl
  | exhausted name group nothing => rfl

theorem Proxied.Sound.going (sound : proxied.Sound conf most)
    (going : ∀ rc, proxied.phase ≠ .finished rc) : proxied.Going conf most :=
  ⟨going, Nat.le_trans (Nat.le_add_right _ _) sound.budget, sound.sent, sound.once⟩

theorem upstreamConnect_handled (sound : proxied.Sound conf most) (phase : proxied.phase = .connect)
    {connecting : ConnectRc}
    (taken : upstreamConnect conf moment up proxied connecting = some after) :
    Handled conf most up proxied after := by
  have idle : proxied.request.sockaddr = false := by
    rw [sound.held, phase]
    rfl
  have allowed : proxied.attempts + max 1 proxied.request.pc.tries ≤ max 1 most := by
    have budget := sound.budget
    unfold Proxied.due at budget
    rw [phase] at budget
    exact budget
  have tries := getLeastConnPeer_tries moment.now up proxied.request.rrp proxied.request.pc
  have got : ∀ last, Uses
      ((getLeastConnPeer moment.now up proxied.request.rrp proxied.request.pc).up,
        proxied.request.got
          (getLeastConnPeer moment.now up proxied.request.rrp proxied.request.pc)) last →
      Uses (up, proxied.request) last := fun last later => .get moment.now idle later
  unfold upstreamConnect at taken
  dsimp only at taken
  generalize getLeastConnPeer moment.now up proxied.request.rrp proxied.request.pc = out at *
  have going : (proxied.tried out).Going conf most := by
    refine ⟨?_, ?_, Nat.le_succ_of_le sound.sent, sound.once⟩
    · intro rc
      change proxied.phase ≠ _
      rw [phase]
      exact fun same => by cases same
    · change proxied.attempts + 1 ≤ max 1 most
      omega
  have budget : (proxied.tried out).attempts + ((proxied.tried out).request.pc.tries - 1) ≤
      max 1 most := by
    change proxied.attempts + 1 + (out.pc.tries - 1) ≤ max 1 most
    rw [tries]
    omega
  have handled : ∀ {after : Upstream n m × Proxied n m},
      Handled conf most out.up (proxied.tried out) after → Handled conf most up proxied after :=
    fun later => ⟨got _ later.uses, later.sound⟩
  cases rc : out.rc with
  | busy =>
      rw [rc] at taken
      exact handled (upstreamNext_handled going budget (.inr rfl) taken)
  | ok =>
      have holding : (proxied.tried out).request.sockaddr = true := by
        change (proxied.request.sockaddr || out.rc == .ok) = true
        rw [rc, Bool.or_eq_true]
        exact .inr rfl
      have unsent : (proxied.tried out).fresh.sends < (proxied.tried out).fresh.attempts :=
        Nat.lt_succ_of_le sound.sent
      have still : (proxied.tried out).fresh.Going conf most := by
        refine ⟨fun rc same => (by cases same), going.spent, going.sent, ?_⟩
        intro once
        have sends := sound.once once
        rw [sound.fresh once phase] at sends
        exact sends
      rw [rc] at taken
      cases connecting with
      | error => exact handled (finalizeRequest_handled going taken)
      | declined => exact handled (upstreamNext_handled going budget (.inl holding) taken)
      | unprepared => exact handled (finalizeRequest_handled going taken)
      | again =>
          cases taken
          exact handled ⟨.done _,
            sound_of_holding still budget holding rfl fun _before => unsent⟩
      | ok connected sending =>
          have sent := sendRequest_handled still budget holding rfl (fun _before => unsent) taken
          exact handled ⟨sent.uses, sent.sound⟩

/-- What an event finds while a peer is held. -/
theorem Proxied.Sound.holding (sound : proxied.Sound conf most)
    (phase : proxied.phase.holds = true) :
    proxied.Going conf most ∧ proxied.request.sockaddr = true ∧
      proxied.attempts + (proxied.request.pc.tries - 1) ≤ max 1 most := by
  refine ⟨sound.going ?_, sound.held.trans phase, ?_⟩
  · intro rc finished
    rw [finished] at phase
    cases phase
  · have budget := sound.budget
    rw [due_of_holds phase] at budget
    exact budget

theorem passHeader_handled (sound : proxied.Sound conf most) (phase : proxied.phase.holds = true)
    {header : Header} (taken : passHeader moment up proxied header = some after) :
    Handled conf most up proxied after := by
  obtain ⟨going, holding, budget⟩ := sound.holding phase
  unfold passHeader at taken
  split at taken
  · exact finalizeRequest_handled going taken
  · split at taken
    · exact finalizeRequest_handled going taken
    · unfold sendResponse at taken
      split at taken
      · exact finalizeRequest_handled going taken
      · cases taken
        have still : ({ proxied with headerSent := true, phase := .respond } :
            Proxied n m).Going conf most :=
          ⟨fun rc same => (by cases same), going.spent, going.sent, going.once⟩
        exact ⟨.done _, sound_of_holding still budget holding rfl (sound.unsent phase)⟩

theorem processHeader_handled (sound : proxied.Sound conf most) (phase : proxied.phase.holds = true)
    {connected : Bool} {reading : HeaderRc}
    (taken : processHeader conf moment up proxied connected reading = some after) :
    Handled conf most up proxied after := by
  obtain ⟨going, holding, budget⟩ := sound.holding phase
  unfold processHeader at taken
  split at taken
  · exact upstreamNext_handled going budget (.inl holding) taken
  · cases reading with
    | again =>
        cases taken
        exact ⟨.done _, sound⟩
    | failed => exact finalizeRequest_handled going taken
    | closed => exact upstreamNext_handled going budget (.inl holding) taken
    | invalid => exact upstreamNext_handled going budget (.inl holding) taken
    | ok header =>
        dsimp only at taken
        split at taken
        · exact upstreamNext_handled going budget (.inl holding) taken
        · exact passHeader_handled sound phase taken

theorem finalizeRequest_sound (sound : proxied.Sound conf most) {rc : Int}
    (taken : finalizeRequest moment up proxied rc = some after) :
    Handled conf most up proxied after := by
  by_cases finished : ∃ earlier, proxied.phase = .finished earlier
  · obtain ⟨earlier, ended⟩ := finished
    unfold finalizeRequest at taken
    rw [ended] at taken
    cases taken
    exact ⟨.done _, sound⟩
  · exact finalizeRequest_handled (sound.going fun rc ended => finished ⟨rc, ended⟩) taken

/-- Whatever an expected event brings, it is handled. -/
theorem handle_handled {ι : Type} {event : ProxyEvent ι} (sound : proxied.Sound conf most)
    (expected : event.expected proxied = true)
    (taken : event.handle conf up proxied = some after) : Handled conf most up proxied after := by
  have holds : proxied.phase = .exchange ∨ proxied.phase = .respond →
      proxied.phase.holds = true := by
    intro phase
    rcases phase with exchange | respond
    · rw [exchange]
      rfl
    · rw [respond]
      rfl
  cases event with
  | arrive who method noBuffering => cases expected
  | connect who moment connecting =>
      exact upstreamConnect_handled sound (of_decide_eq_true expected) taken
  | writable who moment connected sending =>
      have phase := holds (of_decide_eq_true expected)
      obtain ⟨going, holding, budget⟩ := sound.holding phase
      unfold ProxyEvent.handle at taken
      dsimp only at taken
      split at taken
      · cases taken
        exact ⟨.done _, sound⟩
      · exact sendRequest_handled going budget holding phase (sound.unsent phase) taken
  | writeTimeout who moment =>
      obtain ⟨going, holding, budget⟩ := sound.holding (holds (of_decide_eq_true expected))
      exact upstreamNext_handled going budget (.inl holding) taken
  | readable who moment connected reading =>
      exact processHeader_handled sound (holds (.inl (of_decide_eq_true expected))) taken
  | readTimeout who moment =>
      obtain ⟨going, holding, budget⟩ :=
        sound.holding (holds (.inl (of_decide_eq_true expected)))
      exact upstreamNext_handled going budget (.inl holding) taken
  | body who moment sending =>
      have phase := holds (of_decide_eq_true expected).1
      obtain ⟨going, holding, budget⟩ := sound.holding phase
      exact sendRequest_handled going budget holding phase (sound.unsent phase) taken
  | finish who moment rc => exact finalizeRequest_sound sound taken
  | free who moment => exact finalizeRequest_sound sound taken

end Handlers

end AutoBurst.Nginx
