/-
The modified least_conn balancer:
nginx/src/http/modules/ngx_http_upstream_least_conn_module.c, and line for
line the same selection in ngx_stream_upstream_least_conn_module.c.

The first walk compares (conns + 1) / weight. The test that sets `many` and
the filter of the second walk compare conns / weight.
-/

import AutoBurst.Nginx.RoundRobin

namespace AutoBurst.Nginx

open CountedLoop

/-! ### The two comparisons -/

/-- `(peer->conns + 1) * best->weight < (best->conns + 1) * peer->weight` -/
def lessLoaded (peer best : RrPeer) : Bool :=
  decide (uintWrap (uintWrap (peer.conns + 1) * uintOfInt best.weight) <
    uintWrap (uintWrap (best.conns + 1) * uintOfInt peer.weight))

/-- `peer->conns * best->weight == best->conns * peer->weight` -/
def sameConns (peer best : RrPeer) : Bool :=
  uintWrap (peer.conns * uintOfInt best.weight) ==
    uintWrap (best.conns * uintOfInt peer.weight)

/-! ### The first walk -/

/-- `best` stands for `best` and its position `p`. -/
structure Scan (n : Nat) where
  best : Option (Fin n)
  many : Bool

def scanStep {n : Nat} (now : Int) (tried : List Nat) (peer : Fin n → RrPeer)
    (scan : Scan n) (i : Fin n) : Scan n :=
  if triedBit tried i then scan
  else if (peer i).down then scan
  else if (peer i).failedOut now then scan
  else if (peer i).full then scan
  else
    match scan.best with
    | none => { best := some i, many := false }
    | some best =>
        if lessLoaded (peer i) (peer best) then { best := some i, many := false }
        else if sameConns (peer i) (peer best) then { scan with many := true }
        else scan

def scanPeers {n : Nat} (now : Int) (tried : List Nat) (peer : Fin n → RrPeer) : Scan n :=
  loopFrom (scanStep now tried peer) 0 { best := none, many := false }

/-! ### The second walk -/

structure TiePass (n : Nat) where
  tally : Tally n
  best : Fin n

def tieStep {n : Nat} (now : Int) (tried : List Nat) (pass : TiePass n) (i : Fin n) :
    TiePass n :=
  if triedBit tried i then pass
  else if (pass.tally.peer i).down then pass
  else if !sameConns (pass.tally.peer i) (pass.tally.peer pass.best) then pass
  else if (pass.tally.peer i).failedOut now then pass
  else if (pass.tally.peer i).full then pass
  else
    let tally := pass.tally.take i
    if (tally.peer i).currentWeight > (tally.peer pass.best).currentWeight then
      { tally := tally, best := i }
    else { tally := tally, best := pass.best }

/-- The walk starts at the first choice, at its own position. -/
def tiePass {n : Nat} (now : Int) (tried : List Nat) (peer : Fin n → RrPeer)
    (first : Fin n) : TiePass n :=
  loopFrom (tieStep now tried) first { tally := .start peer, best := first }

def breakTies {n : Nat} (now : Int) (tried : List Nat) (peer : Fin n → RrPeer)
    (first : Fin n) (many : Bool) : TiePass n :=
  if many then tiePass now tried peer first
  else { tally := .start peer, best := first }

/-! ### Choosing a peer -/

def TiePass.choose {n : Nat} (pass : TiePass n) (now : Int) (tried : List Nat) : Pick n :=
  let settled := (pass.tally.peer pass.best).settle now pass.tally.total
  { peer := Function.update pass.tally.peer pass.best settled.connect
    best := pass.best
    tried := markTried tried pass.best
    ran := pass.tally.ran
    overflow := pass.tally.overflow || !fitsInt settled.currentWeight }

/-- `none` is the jump to `failed`: no peer of the group is eligible. -/
def leastConnIn {n : Nat} (now : Int) (tried : List Nat) (peers : RrPeers n) :
    Option (Pick n) :=
  let scan := scanPeers now tried peers.peer
  scan.best.map fun first =>
    (breakTies now tried peers.peer first scan.many).choose now tried

def leastConnOrSingle {n : Nat} (now : Int) (tried : List Nat) (peers : RrPeers n) :
    Option (Pick n) :=
  if peers.single then roundRobinIn now tried peers else leastConnIn now tried peers

def getLeastConnPeer {n m : Nat} (now : Int) (up : Upstream n m) (rrp : RrPeerData n m)
    (pc : PeerConnection) : Outcome n m :=
  if rrp.single up then getRoundRobinPeer now up rrp pc
  else getFrom (leastConnIn now) (leastConnOrSingle now) up rrp pc

end AutoBurst.Nginx
