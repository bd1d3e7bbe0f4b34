/-
Rewriting the upstream block of the configuration file: `initializeNginxConf` of
src/src/LoadBalancerUtility.py over texts, from a copy of
src/src/wiki-config_base.conf on. The file is loaded, changed as a tree and
dumped again each time.
-/

import AutoBurst.Conf.RoundTrip
import AutoBurst.Controller.LoadBalancer
import AutoBurst.Lib.Decimal
import AutoBurst.Lib.Reach

namespace AutoBurst.Conf

open Controller (IpWeight)

def wikiConfigBase : String :=
  "# Define which servers to include in the load balancing scheme.\n" ++
  "# to get log of access which can be seen by running `tail -f /var/log/nginx/access.log`\n" ++
  "log_format wiki_log 'local_time=\"$time_local\" mSecTime=$msec timeISO8601=$time_iso8601 " ++
  "client=$remote_addr '\n" ++
  "               'method=$request_method request=\"$request\" '\n" ++
  "               'request_length=$request_length '\n" ++
  "               'status=$status bytes_sent=$bytes_sent '\n" ++
  "               'body_bytes_sent=$body_bytes_sent '\n" ++
  "               'referer=$http_referer '\n" ++
  "               'user_agent=\"$http_user_agent\" '\n" ++
  "               'upstream_addr=$upstream_addr '\n" ++
  "               'upstream_status=$upstream_status '\n" ++
  "               'request_time=$request_time '\n" ++
  "               'upstream_response_time=$upstream_response_time '\n" ++
  "               'upstream_connect_time=$upstream_connect_time '\n" ++
  "               'upstream_header_time=$upstream_header_time';\n\n" ++
  "upstream wiki-app \x7b\n" ++
  "   least_conn;\n" ++
  "   server 10.10.10.10:80;\n" ++
  "   server 10.10.10.20:80;\n" ++
  "   server 10.10.10.26:80;\n" ++
  "\x7d\n\n" ++
  "# This server accepts all traffic to port 8090 and passes it to the upstream.\n\n" ++
  "server \x7b\n\n" ++
  "   listen 80;\n" ++
  "   access_log /var/log/nginx/wikiLog_access_test.log wiki_log;\n" ++
  "   location / \x7b\n" ++
  "      proxy_pass http://wiki-app;\n" ++
  "   \x7d\n" ++
  "   location /nginx_status \x7b\n" ++
  "\tstub_status;\n" ++
  "\t# allow IP; #only allow requests from controller IP\n" ++
  "\tallow all; #deny all other hosts\n" ++
  "    \x7d\n\n" ++
  "\x7d"

def wikiPort : Nat := 5000

/-! ### The rewriting -/

def newServer (server : IpWeight) : Tree :=
  .list [.str "server",
    .str (server.1 ++ ":" ++ toString wikiPort ++ " weight=" ++ toString server.2)]

/-- `content[1][1]` keeps its first entry; where the indices do not fit, an
exception. -/
def replaceServers (serverIpList : List IpWeight) : List Tree → Option (List Tree)
  | first :: .list (header :: .list (lbPolicy :: _servers) :: more) :: rest =>
      some (first ::
        .list (header :: .list (lbPolicy :: serverIpList.map newServer) :: more) :: rest)
  | _ => none

def initializeNginxConf (serverIpList : List IpWeight) (wikiConfigTemp : String) : Option String :=
  (load wikiConfigTemp).bind fun content => (replaceServers serverIpList content).bind dump

/-! ### Servers -/

def plainIp (ip : String) : Bool :=
  ip.toList.all fun char => !blank char && !(['\x7b', '\x7d', ';', '#'].contains char)

private def portWeight (weight : Int) : List Char :=
  ':' :: ((toString wikiPort).toList ++ (" weight=".toList ++ (toString weight).toList))

private theorem server_chars (server : IpWeight) :
    (server.1 ++ ":" ++ toString wikiPort ++ " weight=" ++ toString server.2).toList =
      server.1.toList ++ portWeight server.2 := by
  simp only [String.toList_append, List.append_assoc]
  rfl

private theorem valueChar_of {char : Char} (unmarked : char ∉ ['\x7b', '\x7d', ';'])
    (noTab : char ≠ '\t') : valueChar char = true := by
  unfold valueChar
  rw [List.contains_eq_mem, decide_eq_false unmarked, bne_iff_ne.mpr noTab]
  rfl

private theorem valueChar_digit {char : Char} (digit : char.isDigit = true) :
    valueChar char = true := by
  apply valueChar_of
  · intro member
    simp only [List.mem_cons, List.not_mem_nil, or_false] at member
    rcases member with rfl | rfl | rfl <;> cases digit
  · rintro rfl
    cases digit

private theorem valueChar_ip {ip : String} (plain : plainIp ip = true) {char : Char}
    (member : char ∈ ip.toList) : valueChar char = true ∧ Solid char := by
  have allowed := List.all_eq_true.mp plain char member
  rw [Bool.and_eq_true, Bool.not_eq_true', Bool.not_eq_true', List.contains_eq_mem,
    decide_eq_false_iff_not] at allowed
  obtain ⟨black, unmarked⟩ := allowed
  refine ⟨valueChar_of ?_ ?_, black, ?_⟩
  · exact fun mark => unmarked (List.mem_append_left ['#'] mark)
  · rintro rfl
    cases black
  · rintro rfl
    exact unmarked (by decide)

private theorem valueChar_portWeight (weight : Int) :
    ∀ char ∈ portWeight weight, valueChar char = true := by
  intro char member
  unfold portWeight at member
  rw [List.mem_cons, List.mem_append, List.mem_append] at member
  rcases member with rfl | port | word | number
  · rfl
  · exact valueChar_digit (Decimal.isDigit_of_toDigits wikiPort char port)
  · exact List.all_eq_true.mp (show " weight=".toList.all valueChar = true by decide) char word
  · cases Decimal.digit_or_minus number with
    | inl digit => exact valueChar_digit digit
    | inr minus =>
        rw [minus]
        rfl

theorem writable_newServer {server : IpWeight} (plain : plainIp server.1 = true) :
    writable (newServer server) = true := by
  have starts : solidStart (server.1.toList ++ portWeight server.2) = true := by
    cases chars : server.1.toList with
    | nil => rfl
    | cons char rest =>
        have first : char ∈ server.1.toList := by
          rw [chars]
          exact List.mem_cons_self
        obtain ⟨_allowed, black, noComment⟩ := valueChar_ip plain first
        change (!blank char && char != '#') = true
        rw [black, bne_iff_ne.mpr noComment]
        rfl
  have allowed : (server.1.toList ++ portWeight server.2).all valueChar = true := by
    rw [List.all_append, Bool.and_eq_true, List.all_eq_true, List.all_eq_true]
    exact ⟨fun char member => (valueChar_ip plain member).1, valueChar_portWeight server.2⟩
  unfold newServer Tree.str
  rw [server_chars, writable, valueText, starts, allowed]
  decide

theorem writables_map_newServer {servers : List IpWeight}
    (plain : ∀ server ∈ servers, plainIp server.1 = true) :
    writables (servers.map newServer) = true := by
  induction servers with
  | nil => rfl
  | cons server rest ih =>
      obtain ⟨here, later⟩ := List.forall_mem_cons.mp plain
      rw [List.map_cons, writables, writable_newServer here, ih later]
      rfl

/-! ### One rewriting -/

structure Frame where
  first : Tree
  header : List Tree
  lbPolicy : Tree
  rest : List Tree
  plain : writables (first :: .list [.list header, .list [lbPolicy]] :: rest) = true
  pairs : ∀ tree ∈ first :: rest, unpacks tree = true

def Frame.content (frame : Frame) (servers : List Tree) : List Tree :=
  frame.first :: .list [.list frame.header, .list (frame.lbPolicy :: servers)] :: frame.rest

theorem Frame.writables_content (frame : Frame) {servers : List Tree}
    (plain : writables servers = true) : writables (frame.content servers) = true := by
  have whole := frame.plain
  unfold Frame.content
  simp only [writables, writable, Bool.and_eq_true] at whole ⊢
  exact ⟨whole.1, ⟨whole.2.1.1, whole.2.1.2.1, plain⟩, whole.2.2⟩

theorem Frame.unpacks_content (frame : Frame) (servers : List Tree) :
    ∀ tree ∈ frame.content servers, unpacks tree = true := by
  obtain ⟨first, others⟩ := List.forall_mem_cons.mp frame.pairs
  exact List.forall_mem_cons.mpr ⟨first, List.forall_mem_cons.mpr ⟨rfl, others⟩⟩

/-- The old servers leave no trace in the file. -/
theorem initializeNginxConf_eq (frame : Frame) {file : String} {olds : List Tree}
    (loaded : load file = some (frame.content olds)) (servers : List IpWeight) :
    initializeNginxConf servers file = dump (frame.content (servers.map newServer)) := by
  unfold initializeNginxConf
  rw [loaded]
  rfl

theorem exists_written (frame : Frame) {servers : List IpWeight}
    (plain : ∀ server ∈ servers, plainIp server.1 = true) :
    ∃ file, dump (frame.content (servers.map newServer)) = some file ∧
      load file = some (frame.content (servers.map newServer)) :=
  load_dump (List.cons_ne_nil _ _) (frame.writables_content (writables_map_newServer plain))
    (frame.unpacks_content _)

/-! ### Any sequence of rewritings -/

theorem run_initializeNginxConf (frame : Frame) (lists : List (List IpWeight))
    (last : List IpWeight)
    (plain : ∀ servers ∈ lists, ∀ server ∈ servers, plainIp server.1 = true) {file : String}
    {olds : List Tree} (loaded : load file = some (frame.content olds)) :
    Runs.run (fun current servers => initializeNginxConf servers current) file (lists ++ [last]) =
      dump (frame.content (last.map newServer)) := by
  induction lists generalizing file olds with
  | nil =>
      rw [List.nil_append, Runs.run, initializeNginxConf_eq frame loaded]
      exact Option.bind_fun_some _
  | cons servers rest ih =>
      obtain ⟨here, later⟩ := List.forall_mem_cons.mp plain
      obtain ⟨written, dumped, reloaded⟩ := exists_written frame here
      rw [List.cons_append, Runs.run, initializeNginxConf_eq frame loaded, dumped,
        Option.bind_some]
      exact ih later reloaded

/-! ### The shipped file -/

def upstreamHeader : List Tree := [.str "upstream", .str "wiki-app"]

def leastConn : Tree := .list [.str "least_conn"]

def shipped : List Tree → Bool
  | first :: .list [.list header, .list (lbPolicy :: _servers)] :: rest =>
      decide (header = upstreamHeader) && decide (lbPolicy = leastConn) &&
        writables (first :: .list [.list header, .list [lbPolicy]] :: rest) &&
        (first :: rest).all unpacks
  | _ => false

theorem exists_frame {content : List Tree} (here : shipped content = true) :
    ∃ (frame : Frame) (olds : List Tree), frame.header = upstreamHeader ∧
      frame.lbPolicy = leastConn ∧ content = frame.content olds := by
  unfold shipped at here
  split at here
  · rename_i first header lbPolicy olds rest
    rw [Bool.and_eq_true, Bool.and_eq_true, Bool.and_eq_true, decide_eq_true_eq,
      decide_eq_true_eq, List.all_eq_true] at here
    obtain ⟨⟨⟨sameHeader, samePolicy⟩, plain⟩, pairs⟩ := here
    exact ⟨⟨first, header, lbPolicy, rest, plain, pairs⟩, olds, sameHeader, samePolicy, rfl⟩
  · cases here

theorem shipped_wikiConfigBase : (load wikiConfigBase).any shipped = true := by
  unfold load wikiConfigBase
  simp only [String.toList_append]
  repeat rw [show String.toList _ = _ from String.toList_ofList]
  decide +kernel

theorem exists_baseFrame :
    ∃ (frame : Frame) (olds : List Tree), frame.header = upstreamHeader ∧
      frame.lbPolicy = leastConn ∧ load wikiConfigBase = some (frame.content olds) := by
  have found := shipped_wikiConfigBase
  cases loaded : load wikiConfigBase with
  | none =>
      rw [loaded] at found
      cases found
  | some content =>
      rw [loaded] at found
      obtain ⟨frame, olds, header, policy, rfl⟩ := exists_frame found
      exact ⟨frame, olds, header, policy, rfl⟩

/-- The last list alone decides the file, whatever was written before. -/
theorem rewriting_forgets (earlier : List (List IpWeight)) (last : List IpWeight)
    (plain : ∀ servers ∈ earlier ++ [last], ∀ server ∈ servers, plainIp server.1 = true) :
    ∃ (final : String) (first : Tree) (olds rest : List Tree),
      Runs.run (fun current servers => initializeNginxConf servers current) wikiConfigBase
          (earlier ++ [last]) = some final ∧
        initializeNginxConf last wikiConfigBase = some final ∧
        load wikiConfigBase =
          some (first :: .list [.list upstreamHeader, .list (leastConn :: olds)] :: rest) ∧
        load final =
          some (first ::
            .list [.list upstreamHeader, .list (leastConn :: last.map newServer)] :: rest) := by
  obtain ⟨before, ending⟩ := List.forall_mem_append.mp plain
  obtain ⟨frame, olds, header, policy, loaded⟩ := exists_baseFrame
  obtain ⟨final, dumped, reloaded⟩ := exists_written frame (ending last List.mem_cons_self)
  have ran := run_initializeNginxConf frame earlier last before loaded
  have alone := initializeNginxConf_eq frame loaded last
  unfold Frame.content at loaded reloaded
  rw [header, policy] at loaded reloaded
  exact ⟨final, frame.first, olds, frame.rest, ran.trans dumped, alone.trans dumped, loaded,
    reloaded⟩

theorem rewriting_forgets_sample :
    ∃ (final : String) (first : Tree) (olds rest : List Tree),
      Runs.run (fun current servers => initializeNginxConf servers current) wikiConfigBase
          ([[("10.0.0.1", 1), ("10.0.0.2", 8)], []] ++ [[("10.0.0.3", -2)]]) = some final ∧
        initializeNginxConf [("10.0.0.3", -2)] wikiConfigBase = some final ∧
        load wikiConfigBase =
          some (first :: .list [.list upstreamHeader, .list (leastConn :: olds)] :: rest) ∧
        load final =
          some (first ::
            .list [.list upstreamHeader,
              .list (leastConn :: [("10.0.0.3", -2)].map newServer)] :: rest) :=
  rewriting_forgets [[("10.0.0.1", 1), ("10.0.0.2", 8)], []] [("10.0.0.3", -2)] (by decide +kernel)

end AutoBurst.Conf
