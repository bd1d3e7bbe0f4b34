/-
From tokens to upstreams: `ngx_conf_parse` and `ngx_conf_handler` of
nginx/src/core/ngx_conf_file.c, `ngx_http_upstream` and
`ngx_http_upstream_server` of nginx/src/http/ngx_http_upstream.c, and the
least_conn directive.

A block directive calls the parser again; the calls that have not returned are
the list of blocks entered. The directives known are those of the wiki
configuration. What directives of other modules do with their arguments is not
computed: whether they accept them is a parameter.
-/

import AutoBurst.Nginx.Address
import AutoBurst.Nginx.ConfFile
import AutoBurst.Nginx.RoundRobin

namespace AutoBurst.Nginx

/-! ### Commands -/

/-- `cf->cmd_type` -/
inductive Context
  | main
  | upstream
  | server
  | location
deriving DecidableEq, Repr

inductive ArgCount
  | take (counts : List Nat)
  | more (least : Nat)
deriving DecidableEq, Repr

def ArgCount.allows : ArgCount → Nat → Bool
  | .take counts, count => counts.contains count
  | .more least, count => decide (least ≤ count)

inductive Action
  | upstream
  | upstreamServer
  | leastConn
  | enter (block : Context)
  | other
deriving DecidableEq, Repr

structure Command where
  name : Word
  contexts : List Context
  block : Bool
  args : ArgCount
  action : Action
deriving DecidableEq, Repr

def commands : List Command :=
  [{ name := "log_format".toList, contexts := [.main], block := false,
     args := .more 2, action := .other },
   { name := "access_log".toList, contexts := [.main, .server, .location], block := false,
     args := .more 1, action := .other },
   { name := "server".toList, contexts := [.main], block := true,
     args := .take [0], action := .enter .server },
   { name := "location".toList, contexts := [.server, .location], block := true,
     args := .take [1, 2], action := .enter .location },
   { name := "listen".toList, contexts := [.server], block := false,
     args := .more 1, action := .other },
   { name := "stub_status".toList, contexts := [.server, .location], block := false,
     args := .take [0, 1], action := .other },
   { name := "allow".toList, contexts := [.main, .server, .location], block := false,
     args := .take [1], action := .other },
   { name := "proxy_pass".toList, contexts := [.location], block := false,
     args := .take [1], action := .other },
   { name := "upstream".toList, contexts := [.main], block := true,
     args := .take [1], action := .upstream },
   { name := "server".toList, contexts := [.upstream], block := false,
     args := .more 1, action := .upstreamServer },
   { name := "least_conn".toList, contexts := [.upstream], block := false,
     args := .take [0], action := .leastConn }]

/-! ### Servers of an upstream -/

inductive UpstreamFlag
  | create
  | weight
  | maxConns
  | maxFails
  | failTimeout
  | down
  | backup
deriving DecidableEq, Repr

def allFlags : List UpstreamFlag :=
  [.create, .weight, .maxConns, .maxFails, .failTimeout, .down, .backup]

structure UpstreamConf where
  host : Word
  flags : List UpstreamFlag
  leastConn : Bool
  servers : List Server
deriving DecidableEq, Repr

def defaultServer : Server :=
  { addrs := []
    weight := 1
    maxConns := 0
    maxFails := 1
    failTimeout := 10
    down := false
    backup := false }

def withFlag (flags : List UpstreamFlag) (flag : UpstreamFlag) (value : Word)
    (server : Option Server) : Except ConfError Server :=
  if flags.contains flag then
    match server with
    | none => .error (.invalidParameter value)
    | some server => .ok server
  else .error (.notSupported value)

def serverParameter (flags : List UpstreamFlag) (server : Server) (value : Word) :
    Except ConfError Server :=
  if "weight=".toList.isPrefixOf value then
    withFlag flags .weight value
      (((atoi (value.drop 7)).filter (· != 0)).map fun weight => { server with weight := weight })
  else if "max_conns=".toList.isPrefixOf value then
    withFlag flags .maxConns value
      ((atoi (value.drop 10)).map fun count => { server with maxConns := count })
  else if "max_fails=".toList.isPrefixOf value then
    withFlag flags .maxFails value
      ((atoi (value.drop 10)).map fun count => { server with maxFails := count })
  else if "fail_timeout=".toList.isPrefixOf value then
    withFlag flags .failTimeout value
      ((parseTime (value.drop 13) true).map fun time => { server with failTimeout := time })
  else if value = "backup".toList then
    withFlag flags .backup value (some { server with backup := true })
  else if value = "down".toList then
    withFlag flags .down value (some { server with down := true })
  else .error (.invalidParameter value)

def httpUpstreamServer (resolver : Resolver) (flags : List UpstreamFlag) :
    List Word → Except ConfError Server
  | [] => .error (.argumentCount "server".toList)
  | url :: values =>
      (values.foldlM (serverParameter flags) defaultServer).bind fun server =>
        match parseUrl resolver url 80 with
        | .error reason => .error (.inUpstream reason url)
        | .ok addrs => .ok { server with addrs := addrs }

/-! ### Directives -/

/-- What directives of other modules answer, where they may stand and with a
fitting number of arguments. -/
abbrev Accepts := Context → List Word → Bool

/-- The blocks entered, the innermost first, and the upstreams so far. The
upstream whose block is read is the last one. -/
structure Reading where
  blocks : List Context
  upstreams : List UpstreamConf
deriving DecidableEq, Repr

def Reading.start : Reading := { blocks := [], upstreams := [] }

def Reading.context (reading : Reading) : Context := reading.blocks.headD .main

/-- `ngx_http_upstream_add` for a block: the name must be new, up to case. -/
def httpUpstream (reading : Reading) (host : Word) : Except ConfError Reading :=
  if reading.upstreams.any (fun other => other.host.map Char.toLower == host.map Char.toLower) then
    .error (.duplicateUpstream host)
  else
    .ok
      { blocks := .upstream :: reading.blocks
        upstreams := reading.upstreams ++
          [{ host := host, flags := allFlags, leastConn := false, servers := [] }] }

def Reading.onUpstream (reading : Reading)
    (change : UpstreamConf → Except ConfError UpstreamConf) : Except ConfError Reading :=
  match reading.upstreams.getLast? with
  | none => .error .noServers
  | some upstream =>
      (change upstream).map fun changed =>
        { reading with upstreams := reading.upstreams.dropLast ++ [changed] }

def Reading.perform (resolver : Resolver) (accepts : Accepts) (reading : Reading)
    (name : Word) (args : List Word) : Action → Except ConfError Reading
  | .upstream => httpUpstream reading (args.headD [])
  | .upstreamServer =>
      reading.onUpstream fun upstream =>
        (httpUpstreamServer resolver upstream.flags args).map fun server =>
          { upstream with servers := upstream.servers ++ [server] }
  | .leastConn =>
      reading.onUpstream fun upstream =>
        .ok { upstream with leastConn := true, flags := allFlags }
  | .enter block =>
      if accepts reading.context (name :: args) then
        .ok { reading with blocks := block :: reading.blocks }
      else .error (.refused name)
  | .other =>
      if accepts reading.context (name :: args) then .ok reading else .error (.refused name)

/-- The first command of the name that may stand here decides. -/
def confHandler (resolver : Resolver) (accepts : Accepts) (reading : Reading) (block : Bool) :
    List Word → Except ConfError Reading
  | [] => .error (.unknownDirective [])
  | name :: args =>
      match commands.find? fun command =>
          command.name == name && command.contexts.contains reading.context with
      | none =>
          if commands.any (fun command => command.name == name) then
            .error (.notAllowedHere name)
          else .error (.unknownDirective name)
      | some command =>
          if !command.block && block then .error (.notTerminated name)
          else if command.block && !block then .error (.noOpening name)
          else if command.args.allows args.length then
            reading.perform resolver accepts name args command.action
          else .error (.argumentCount name)

def Reading.leave (reading : Reading) : Except ConfError Reading :=
  match reading.blocks with
  | [] => .error (.unexpected '\x7d')
  | block :: outer =>
      if block = .upstream ∧ reading.upstreams.getLast?.all (fun last => last.servers.isEmpty) then
        .error .noServers
      else .ok { reading with blocks := outer }

/-- One turn of the loop of `ngx_conf_parse`. -/
def Reading.token (resolver : Resolver) (accepts : Accepts) (reading : Reading)
    (token : ConfToken) : Except ConfError Reading :=
  match token.rc with
  | .error reason => .error reason
  | .ok => confHandler resolver accepts reading false token.args
  | .blockStart => confHandler resolver accepts reading true token.args
  | .blockDone => reading.leave
  | .fileDone => if reading.blocks.isEmpty then .ok reading else .error .endOfFileInBlock

/-- A file included where http directives may stand. -/
def confParse (resolver : Resolver) (accepts : Accepts) (file : List Char) :
    Except ConfError (List UpstreamConf) :=
  ((readFile file).foldlM (Reading.token resolver accepts) .start).map Reading.upstreams

/-! ### Single directives -/

/-- What is done for a directive that stands where it may and has a fitting
number of arguments. -/
def actionOf (context : Context) (block : Bool) : List Word → Option Action
  | [] => none
  | name :: args =>
      (commands.find? fun command =>
        command.name == name && command.contexts.contains context).bind fun command =>
          if command.block = block ∧ command.args.allows args.length then some command.action
          else none

section Directive

variable {resolver : Resolver} {accepts : Accepts} {name : Word} {args : List Word}

theorem confHandler_of_actionOf (reading : Reading) {block : Bool} {action : Action}
    (known : actionOf reading.context block (name :: args) = some action) :
    confHandler resolver accepts reading block (name :: args) =
      reading.perform resolver accepts name args action := by
  obtain ⟨command, found, rest⟩ := Option.bind_eq_some_iff.mp known
  rw [Option.ite_none_right_eq_some] at rest
  obtain ⟨⟨rfl, allowed⟩, same⟩ := rest
  have agrees := Option.some.inj same
  unfold confHandler
  dsimp only
  rw [found]
  dsimp only
  rw [Bool.not_and_self, Bool.and_not_self, if_neg Bool.false_ne_true, if_neg Bool.false_ne_true,
    if_pos allowed, agrees]

theorem token_ok (reading : Reading) (args : List Word) :
    reading.token resolver accepts ⟨.ok, args⟩ = confHandler resolver accepts reading false args :=
  rfl

theorem token_blockStart (reading : Reading) (args : List Word) :
    reading.token resolver accepts ⟨.blockStart, args⟩ =
      confHandler resolver accepts reading true args :=
  rfl

theorem token_blockDone (reading : Reading) (args : List Word) :
    reading.token resolver accepts ⟨.blockDone, args⟩ = reading.leave :=
  rfl

theorem token_other (reading : Reading)
    (known : actionOf reading.context false (name :: args) = some .other)
    (accepted : accepts reading.context (name :: args) = true) :
    reading.token resolver accepts ⟨.ok, name :: args⟩ = .ok reading := by
  rw [token_ok, confHandler_of_actionOf reading known, Reading.perform, if_pos accepted]

theorem token_enter (reading : Reading) {block : Context}
    (known : actionOf reading.context true (name :: args) = some (.enter block))
    (accepted : accepts reading.context (name :: args) = true) :
    reading.token resolver accepts ⟨.blockStart, name :: args⟩ =
      .ok { reading with blocks := block :: reading.blocks } := by
  rw [token_blockStart, confHandler_of_actionOf reading known, Reading.perform, if_pos accepted]

theorem token_leave {block : Context} (inner : block ≠ .upstream) (outer : List Context)
    (upstreams : List UpstreamConf) :
    Reading.token resolver accepts ⟨block :: outer, upstreams⟩ ⟨.blockDone, args⟩ =
      .ok ⟨outer, upstreams⟩ :=
  if_neg fun both => inner both.1

theorem foldlM_token {reading next : Reading} {token : ConfToken}
    (turn : reading.token resolver accepts token = .ok next) (rest : List ConfToken) :
    (token :: rest).foldlM (Reading.token resolver accepts) reading =
      rest.foldlM (Reading.token resolver accepts) next := by
  rw [List.foldlM_cons, turn]
  rfl

theorem foldlM_toOption (reading : Reading) (token : ConfToken) (rest : List ConfToken) :
    ((token :: rest).foldlM (Reading.token resolver accepts) reading).toOption =
      (reading.token resolver accepts token).toOption.bind fun next =>
        (rest.foldlM (Reading.token resolver accepts) next).toOption := by
  rw [List.foldlM_cons]
  cases reading.token resolver accepts token with
  | error reason => rfl
  | ok next => rfl

end Directive

/-! ### Servers by address and weight -/

def dottedIp (ip : String) : Bool :=
  decide (inetAddr ip.toList < inaddrNone) && decide (ip.toList = dotted (inetAddr ip.toList))

theorem exists_addr {ip : String} (isDotted : dottedIp ip = true) :
    ∃ addr, addr < inaddrNone ∧ ip.toList = dotted addr := by
  unfold dottedIp at isDotted
  rw [Bool.and_eq_true, decide_eq_true_eq, decide_eq_true_eq] at isDotted
  exact ⟨_, isDotted⟩

theorem plainChar_of_digit {ch : Char} (digit : ch.isDigit = true) : plainChar ch = true := by
  have apart : ∀ other : Char, other.isDigit = false → (ch == other) = false := by
    intro other noDigit
    apply beq_eq_false_iff_ne.mpr
    rintro rfl
    rw [digit] at noDigit
    cases noDigit
  apply plainChar_iff.mpr
  refine ⟨?_, apart _ rfl, apart _ rfl, apart _ rfl, apart _ rfl⟩
  unfold confSpace
  rw [apart ' ' rfl, apart '\t' rfl, apart '\r' rfl, apart '\n' rfl]
  rfl

theorem plainWord_sockNtop {addr port : Nat} (small : port ≤ 65535) :
    plainWord (sockNtop addr port) = true := by
  have all : (sockNtop addr port).all plainChar = true := by
    apply List.all_eq_true.mpr
    intro ch member
    rcases sockNtop_chars small ch member with digit | rfl | rfl
    · exact plainChar_of_digit digit
    · rfl
    · rfl
  obtain ⟨first, rest, begins, digit⟩ := sockNtop_head addr port
  rw [begins] at all ⊢
  rw [plainWord, all, Bool.and_true, Bool.not_eq_true', List.contains_eq_mem,
    decide_eq_false_iff_not]
  intro marked
  simp only [List.mem_cons, List.not_mem_nil, or_false] at marked
  rcases marked with rfl | rfl | rfl | rfl <;> cases digit

def acceptedWeight (weight : Int) : Bool := decide (1 ≤ weight ∧ weight ≤ maxInt)

def weightWord (weight : Int) : Word := "weight=".toList ++ (toString weight).toList

theorem plainWord_weightWord (weight : Int) : plainWord (weightWord weight) = true := by
  have chars : ((toString weight).toList).all plainChar = true := by
    apply List.all_eq_true.mpr
    intro ch member
    rcases Decimal.digit_or_minus member with digit | rfl
    · exact plainChar_of_digit digit
    · rfl
  have fixed : "weight=".toList = ['w', 'e', 'i', 'g', 'h', 't', '='] := String.toList_ofList
  unfold weightWord
  rw [fixed, List.cons_append, plainWord, ← List.cons_append, List.all_append, chars]
  rfl

private theorem atoi_toString (weight : Int) :
    (atoi (toString weight).toList).filter (· != 0) =
      if acceptedWeight weight then some weight.toNat else none := by
  unfold acceptedWeight
  cases weight with
  | ofNat n =>
      rw [Decimal.toList_ofNat, atoi_toDigits]
      by_cases fits : n ≤ maxInt
      · by_cases zero : n = 0
        · subst zero
          rfl
        · have accepted : 1 ≤ Int.ofNat n ∧ Int.ofNat n ≤ maxInt := by
            change (1 : Int) ≤ (n : Int) ∧ (n : Int) ≤ maxInt
            omega
          rw [if_pos fits, decide_eq_true accepted, if_pos rfl, Option.filter_some,
            if_pos (bne_iff_ne.mpr zero)]
          rfl
      · have refused : ¬(1 ≤ Int.ofNat n ∧ Int.ofNat n ≤ maxInt) := by
          change ¬((1 : Int) ≤ (n : Int) ∧ (n : Int) ≤ maxInt)
          omega
        rw [if_neg fits, decide_eq_false refused, if_neg Bool.false_ne_true]
        rfl
  | negSucc n =>
      have refused : ¬(1 ≤ Int.negSucc n ∧ Int.negSucc n ≤ maxInt) := by
        have negative := Int.negSucc_lt_zero n
        omega
      rw [Decimal.toList_negSucc, atoi_minus, decide_eq_false refused, if_neg Bool.false_ne_true]
      rfl

/-- A weight that is accepted fits into the buffer. -/
theorem length_weightWord {weight : Int} (accepted : acceptedWeight weight = true) :
    (weightWord weight).length < confBuffer := by
  unfold acceptedWeight at accepted
  rw [decide_eq_true_eq] at accepted
  obtain ⟨positive, small⟩ := accepted
  unfold maxInt at small
  obtain ⟨n, rfl⟩ := Int.eq_ofNat_of_zero_le (a := weight) (by omega)
  have digits : (toString (n : Int)).toList = Nat.toDigits 10 n := Decimal.toList_ofNat n
  have short := length_sprintfNum n
  rw [sprintfNum_eq (by omega)] at short
  have fixed : "weight=".toList.length = 7 := by decide
  unfold weightWord confBuffer
  rw [List.length_append, digits, fixed]
  omega

def servedServer (name : String) (weight : Int) : Server :=
  { defaultServer with addrs := [name], weight := weight.toNat }

theorem httpUpstreamServer_sockNtop (resolver : Resolver) {addr port : Nat}
    (fits : addr < inaddrNone) (positive : 1 ≤ port) (small : port ≤ 65535) (weight : Int) :
    (httpUpstreamServer resolver allFlags [sockNtop addr port, weightWord weight]).toOption =
      if acceptedWeight weight then
        some (servedServer (String.ofList (sockNtop addr port)) weight)
      else none := by
  have begins : "weight=".toList.isPrefixOf (weightWord weight) = true := by
    rw [List.isPrefixOf_iff_prefix]
    exact List.prefix_append _ _
  have fixed : "weight=".toList = ['w', 'e', 'i', 'g', 'h', 't', '='] := String.toList_ofList
  have dropped : (weightWord weight).drop 7 = (toString weight).toList := by
    unfold weightWord
    generalize (toString weight).toList = digits
    rw [fixed]
    rfl
  have flagged : allFlags.contains UpstreamFlag.weight = true := by decide
  have read : serverParameter allFlags defaultServer (weightWord weight) =
      if acceptedWeight weight then .ok { defaultServer with weight := weight.toNat }
      else .error (.invalidParameter (weightWord weight)) := by
    unfold serverParameter withFlag
    rw [if_pos begins, dropped, atoi_toString, if_pos flagged]
    by_cases accepted : acceptedWeight weight = true
    · rw [if_pos accepted, if_pos accepted]
      rfl
    · rw [if_neg accepted, if_neg accepted]
      rfl
  unfold httpUpstreamServer
  dsimp only
  rw [List.foldlM_cons, read, parseUrl_sockNtop resolver fits positive small]
  split <;> rfl

end AutoBurst.Nginx
