/-
The peer groups of an http upstream and the round-robin balancer they are
shared with: nginx/src/http/ngx_http_upstream_round_robin.c.

A group is a linked list walked from its head, so a peer is named by its
position. Unsigned fields wrap modulo 2 ^ 64. Signed weights are integers, and
a pass records whether one of its sums left the range of ngx_int_t. Sockets,
sessions, locks and log lines are left out.
-/

import AutoBurst.Lib.CountedLoop
import Mathlib.Algebra.Group.Int.Defs
import Mathlib.Algebra.GroupWithZero.Nat
import Mathlib.Data.Fintype.Sum
import Mathlib.Logic.Function.Basic

namespace AutoBurst.Nginx

open CountedLoop

/-! ### Machine integers -/

def uintWrap (value : Nat) : Nat := value % 2 ^ 64

/-- `conns--` on an `ngx_uint_t`. -/
def uintPred (value : Nat) : Nat := if value = 0 then 2 ^ 64 - 1 else value - 1

/-- Conversion of an `ngx_int_t` operand to `ngx_uint_t`. -/
def uintOfInt (value : Int) : Nat := (value % 2 ^ 64).toNat

def fitsInt (value : Int) : Bool := decide (-2 ^ 63 ≤ value ∧ value < 2 ^ 63)

/-! ### Peers, groups and requests -/

structure RrPeer where
  name : String
  currentWeight : Int
  effectiveWeight : Int
  weight : Int
  conns : Nat
  maxConns : Nat
  fails : Nat
  accessed : Int
  checked : Int
  maxFails : Nat
  failTimeout : Int
  down : Bool
deriving DecidableEq, Repr

structure RrPeers (n : Nat) where
  totalWeight : Nat
  tries : Nat
  single : Bool
  weighted : Bool
  name : String
  peer : Fin n → RrPeer

/-- `next` is the backup group; a backup group has no next group itself. -/
structure Upstream (n m : Nat) where
  primary : RrPeers n
  next : Option (RrPeers m)

inductive Group
  | primary
  | backup
deriving DecidableEq, Repr

/-- The per-request state. `tried` is the bitmap, in words of 64 bits. -/
structure RrPeerData (n m : Nat) where
  peers : Group
  current : Option (Fin n ⊕ Fin m)
  tried : List Nat
deriving DecidableEq

structure PeerConnection where
  name : String
  tries : Nat
deriving DecidableEq, Repr

inductive Rc
  | ok
  | busy
deriving DecidableEq, Repr

/-- What a `get` leaves behind. `overflow` is a ghost: one of the signed sums
of the call left the range of `ngx_int_t`. -/
structure Outcome (n m : Nat) where
  rc : Rc
  up : Upstream n m
  rrp : RrPeerData n m
  pc : PeerConnection
  overflow : Bool

/-! ### Configuration -/

structure Server where
  addrs : List String
  weight : Nat
  maxConns : Nat
  maxFails : Nat
  failTimeout : Int
  down : Bool
  backup : Bool
deriving DecidableEq, Repr

def Server.peer (server : Server) (name : String) : RrPeer :=
  { name := name
    currentWeight := 0
    effectiveWeight := server.weight
    weight := server.weight
    conns := 0
    maxConns := server.maxConns
    fails := 0
    accessed := 0
    checked := 0
    maxFails := server.maxFails
    failTimeout := server.failTimeout
    down := server.down }

def serversOf (backup : Bool) (servers : List Server) : List Server :=
  servers.filter (fun server => server.backup == backup)

def peersOf (backup : Bool) (servers : List Server) : List RrPeer :=
  (serversOf backup servers).flatMap (fun server => server.addrs.map server.peer)

def initGroup (backup : Bool) (single : Bool) (host : String) (servers : List Server) :
    RrPeers (peersOf backup servers).length :=
  let chosen := serversOf backup servers
  let number := (chosen.map (fun server => server.addrs.length)).sum
  let weights := (chosen.map (fun server => server.addrs.length * server.weight)).sum
  { totalWeight := weights
    tries := ((chosen.filter (fun server => !server.down)).map
      (fun server => server.addrs.length)).sum
    single := single
    weighted := weights != number
    name := host
    peer := (peersOf backup servers).get }

/-- An upstream with a server list. `none` is the "no servers" error; the
backup group exists only when it has a peer, and then neither group is single. -/
def initRoundRobin (host : String) (servers : List Server) :
    Option (Upstream (peersOf false servers).length (peersOf true servers).length) :=
  if (peersOf false servers).length = 0 then none
  else if (peersOf true servers).length = 0 then
    some
      { primary := initGroup false ((peersOf false servers).length == 1) host servers
        next := none }
  else
    some
      { primary := initGroup false false host servers
        next := some (initGroup true false host servers) }

/-- An upstream implicitly defined by proxy_pass, etc. -/
def initImplicit (host : String) (addrs : List String) : Upstream addrs.length 0 :=
  { primary :=
      { totalWeight := addrs.length
        tries := addrs.length
        single := addrs.length == 1
        weighted := false
        name := host
        peer := fun i =>
          { name := addrs.get i
            currentWeight := 0
            effectiveWeight := 1
            weight := 1
            conns := 0
            maxConns := 0
            fails := 0
            accessed := 0
            checked := 0
            maxFails := 1
            failTimeout := 10
            down := false } }
    next := none }

def triedWords (number : Nat) : Nat := (number + (64 - 1)) / 64

def Upstream.triedNumber {n m : Nat} (up : Upstream n m) : Nat :=
  if up.next.isSome && n < m then m else n

def Upstream.triesTotal {n m : Nat} (up : Upstream n m) : Nat :=
  up.primary.tries + (up.next.elim 0 RrPeers.tries)

/-- `rrp->data` holds the bitmap of up to 64 peers, else it is allocated. -/
def initRoundRobinPeer {n m : Nat} (up : Upstream n m) :
    RrPeerData n m × PeerConnection :=
  ({ peers := .primary
     current := none
     tried := if up.triedNumber ≤ 64 then [0]
       else List.replicate (triedWords up.triedNumber) 0 },
   { name := "", tries := up.triesTotal })

/-! ### The tried bitmap -/

def triedBit (tried : List Nat) (i : Nat) : Bool :=
  tried.getD (i / 64) 0 &&& 1 <<< (i % 64) != 0

def markTried (tried : List Nat) (i : Nat) : List Nat :=
  tried.modify (i / 64) (fun word => word ||| 1 <<< (i % 64))

def clearTried (tried : List Nat) (number : Nat) : List Nat :=
  tried.mapIdx (fun i word => if i < triedWords number then 0 else word)

/-! ### Filters and updates shared by the passes -/

def RrPeer.failedOut (peer : RrPeer) (now : Int) : Bool :=
  peer.maxFails != 0 && decide (peer.maxFails ≤ peer.fails) &&
    decide (now - peer.checked ≤ peer.failTimeout)

def RrPeer.full (peer : RrPeer) : Bool :=
  peer.maxConns != 0 && decide (peer.maxConns ≤ peer.conns)

/-- The peers together with what a weighted pass accumulates. `ran` is a
ghost: the positions the pass ran over, in order. -/
structure Tally (n : Nat) where
  peer : Fin n → RrPeer
  total : Int
  ran : List (Fin n)
  overflow : Bool

def Tally.start {n : Nat} (peer : Fin n → RrPeer) : Tally n :=
  { peer := peer, total := 0, ran := [], overflow := false }

def RrPeer.gain (peer : RrPeer) : RrPeer :=
  { peer with
    currentWeight := peer.currentWeight + peer.effectiveWeight
    effectiveWeight :=
      if peer.effectiveWeight < peer.weight then peer.effectiveWeight + 1
      else peer.effectiveWeight }

def Tally.take {n : Nat} (tally : Tally n) (i : Fin n) : Tally n :=
  let gained := (tally.peer i).gain
  let total := tally.total + (tally.peer i).effectiveWeight
  { peer := Function.update tally.peer i gained
    total := total
    ran := tally.ran ++ [i]
    overflow := tally.overflow || !fitsInt gained.currentWeight || !fitsInt total ||
      !fitsInt gained.effectiveWeight }

def RrPeer.settle (peer : RrPeer) (now total : Int) : RrPeer :=
  { peer with
    currentWeight := peer.currentWeight - total
    checked := if now - peer.checked > peer.failTimeout then now else peer.checked }

def RrPeer.connect (peer : RrPeer) : RrPeer :=
  { peer with conns := uintWrap (peer.conns + 1) }

/-- A choice within one group: the group afterwards, the position chosen, the
bitmap afterwards, and the ghosts of the pass. -/
structure Pick (n : Nat) where
  peer : Fin n → RrPeer
  best : Fin n
  tried : List Nat
  ran : List (Fin n)
  overflow : Bool

/-! ### Round robin -/

structure RrPass (n : Nat) where
  tally : Tally n
  best : Option (Fin n)

def rrStep {n : Nat} (now : Int) (tried : List Nat) (pass : RrPass n) (i : Fin n) :
    RrPass n :=
  if triedBit tried i then pass
  else if (pass.tally.peer i).down then pass
  else if (pass.tally.peer i).failedOut now then pass
  else if (pass.tally.peer i).full then pass
  else
    let tally := pass.tally.take i
    match pass.best with
    | none => { tally := tally, best := some i }
    | some best =>
        if (tally.peer i).currentWeight > (tally.peer best).currentWeight then
          { tally := tally, best := some i }
        else { tally := tally, best := some best }

/-- `ngx_http_upstream_get_peer`, with the `conns++` of its caller. -/
def getPeer {n : Nat} (now : Int) (tried : List Nat) (peer : Fin n → RrPeer) :
    Option (Pick n) :=
  let pass := loopFrom (rrStep now tried) 0 { tally := .start peer, best := none }
  pass.best.map fun best =>
    let settled := (pass.tally.peer best).settle now pass.tally.total
    { peer := Function.update pass.tally.peer best settled.connect
      best := best
      tried := markTried tried best
      ran := pass.tally.ran
      overflow := pass.tally.overflow || !fitsInt settled.currentWeight }

/-- A single peer is used whatever its failures, and is never marked tried. -/
def getSingle {n : Nat} (tried : List Nat) (peer : Fin n → RrPeer) : Option (Pick n) :=
  if h : 0 < n then
    let first : Fin n := ⟨0, h⟩
    if (peer first).down then none
    else if (peer first).full then none
    else some
      { peer := Function.update peer first (peer first).connect
        best := first
        tried := tried
        ran := []
        overflow := false }
  else none

def roundRobinIn {n : Nat} (now : Int) (tried : List Nat) (peers : RrPeers n) :
    Option (Pick n) :=
  if peers.single then getSingle tried peers.peer
  else getPeer now tried peers.peer

section Get

variable {n m : Nat}

def Pick.inPrimary (pick : Pick n) (up : Upstream n m) (rrp : RrPeerData n m)
    (pc : PeerConnection) : Outcome n m :=
  { rc := .ok
    up := { up with primary := { up.primary with peer := pick.peer } }
    rrp := { rrp with current := some (.inl pick.best), tried := pick.tried }
    pc := { pc with name := (pick.peer pick.best).name }
    overflow := pick.overflow }

def Pick.inBackup (pick : Pick m) (up : Upstream n m) (backup : RrPeers m)
    (rrp : RrPeerData n m) (pc : PeerConnection) : Outcome n m :=
  { rc := .ok
    up := { up with next := some { backup with peer := pick.peer } }
    rrp := { rrp with current := some (.inr pick.best), tried := pick.tried }
    pc := { pc with name := (pick.peer pick.best).name }
    overflow := pick.overflow }

def busy (up : Upstream n m) (rrp : RrPeerData n m) (pc : PeerConnection)
    (name : String) : Outcome n m :=
  { rc := .busy, up := up, rrp := rrp, pc := { pc with name := name }, overflow := false }

def RrPeerData.toBackup (rrp : RrPeerData n m) : RrPeerData n m :=
  { rrp with peers := .backup, tried := clearTried rrp.tried m }

/-- The skeleton both `get` functions share: try the request's group, and when
the primary group has nothing, the backup group if there is one. -/
def getFrom (inPrimary : List Nat → RrPeers n → Option (Pick n))
    (inBackup : List Nat → RrPeers m → Option (Pick m))
    (up : Upstream n m) (rrp : RrPeerData n m) (pc : PeerConnection) : Outcome n m :=
  match rrp.peers with
  | .primary =>
      match inPrimary rrp.tried up.primary with
      | some pick => pick.inPrimary up rrp pc
      | none =>
          match up.next with
          | none => busy up rrp pc up.primary.name
          | some backup =>
              match inBackup rrp.toBackup.tried backup with
              | some pick => pick.inBackup up backup rrp.toBackup pc
              | none => busy up rrp.toBackup pc up.primary.name
  | .backup =>
      match up.next with
      | none => busy up rrp pc ""
      | some backup =>
          match inBackup rrp.tried backup with
          | some pick => pick.inBackup up backup rrp pc
          | none => busy up rrp pc backup.name

def getRoundRobinPeer (now : Int) (up : Upstream n m) (rrp : RrPeerData n m)
    (pc : PeerConnection) : Outcome n m :=
  getFrom (roundRobinIn now) (roundRobinIn now) up rrp pc

/-! ### Releasing a peer -/

def peerFailed : Nat := 4

def RrPeer.noteState (peer : RrPeer) (now : Int) (state : Nat) : RrPeer :=
  if state &&& peerFailed != 0 then
    let reduced : Int :=
      if peer.maxFails != 0 then
        peer.effectiveWeight - (uintOfInt peer.weight / peer.maxFails : Nat)
      else peer.effectiveWeight
    { peer with
      fails := uintWrap (peer.fails + 1)
      accessed := now
      checked := now
      effectiveWeight := if reduced < 0 then 0 else reduced }
  else if peer.accessed < peer.checked then { peer with fails := 0 }
  else peer

def RrPeer.disconnect (peer : RrPeer) : RrPeer :=
  { peer with conns := uintPred peer.conns }

def RrPeer.release (peer : RrPeer) (single : Bool) (now : Int) (state : Nat) : RrPeer :=
  if single then peer.disconnect else (peer.noteState now state).disconnect

/-- The group the request points at decides whether the release is the single
one; the peer released is `rrp->current`, whatever its group. -/
def RrPeerData.single (rrp : RrPeerData n m) (up : Upstream n m) : Bool :=
  match rrp.peers with
  | .primary => up.primary.single
  | .backup => up.next.elim false RrPeers.single

def RrPeers.releaseAt {n : Nat} (peers : RrPeers n) (i : Fin n) (single : Bool) (now : Int)
    (state : Nat) : RrPeers n :=
  { peers with
    peer := Function.update peers.peer i ((peers.peer i).release single now state) }

/-- `none` is a dereferenced null pointer: no current peer, or no such group. -/
def freeRoundRobinPeer (now : Int) (up : Upstream n m) (rrp : RrPeerData n m)
    (pc : PeerConnection) (state : Nat) : Option (Upstream n m × PeerConnection) :=
  let single := rrp.single up
  let tries := if single then 0 else pc.tries - 1
  match rrp.current with
  | none => none
  | some (.inl i) =>
      some ({ up with primary := up.primary.releaseAt i single now state },
        { pc with tries := tries })
  | some (.inr i) =>
      up.next.map fun backup =>
        ({ up with next := some (backup.releaseAt i single now state) },
          { pc with tries := tries })

end Get

end AutoBurst.Nginx
