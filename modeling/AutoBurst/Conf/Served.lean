/-
What nginx makes of the configuration the controller writes. The file is a text
the parser of the controller and the token reader of nginx both read: its servers are
the lines between a fixed head and a fixed tail, nginx reads each line as one
directive, and the upstream it builds lists the servers with their weights.
-/

import AutoBurst.Conf.Rewrite
import AutoBurst.Nginx.Directives

namespace AutoBurst.Conf

open Controller (IpWeight)
open Nginx

/-! ### The tree of the shipped file -/

def logFormatValue : String :=
  "wiki_log 'local_time=\"$time_local\" mSecTime=$msec timeISO8601=$time_iso8601 " ++
  "client=$remote_addr '\n" ++
  "               'method=$request_method request=\"$request\" '\n" ++
  "               'request_length=$request_length '\n" ++
  "               'status=$status bytes_sent=$bytes_sent '\n" ++
  "               'body_bytes_sent=$body_bytes_sent '\n" ++
  "               'referer=$http_referer '\n" ++
  "               'user_agent=\"$http_user_agent\" '\n" ++
  "               'upstream_addr=$upstream_addr '\n" ++
  "               'upstream_status=$upstream_status '\n" ++
  "               'request_time=$request_time '\n" ++
  "               'upstream_response_time=$upstream_response_time '\n" ++
  "               'upstream_connect_time=$upstream_connect_time '\n" ++
  "               'upstream_header_time=$upstream_header_time'"

def wikiLogFormat : Tree := .list [.str "log_format", .str logFormatValue]

def wikiServer : Tree :=
  .list [.list [.str "server"],
    .list [.list [.str "listen", .str "80"],
      .list [.str "access_log", .str "/var/log/nginx/wikiLog_access_test.log wiki_log"],
      .list [.list [.str "location", .str "/"],
        .list [.list [.str "proxy_pass", .str "http://wiki-app"]]],
      .list [.list [.str "location", .str "/nginx_status"],
        .list [.list [.str "stub_status"], .list [.str "allow", .str "all"]]]]]

def wikiContent (servers : List Tree) : List Tree :=
  [wikiLogFormat, .list [.list upstreamHeader, .list (leastConn :: servers)], wikiServer]

theorem load_wikiConfigBase :
    load wikiConfigBase = some (wikiContent
      [.list [.str "server", .str "10.10.10.10:80"], .list [.str "server", .str "10.10.10.20:80"],
       .list [.str "server", .str "10.10.10.26:80"]]) := by
  unfold load wikiConfigBase wikiContent wikiLogFormat wikiServer upstreamHeader leastConn
    logFormatValue Tree.str
  simp only [String.toList_append]
  repeat rw [show String.toList _ = _ from String.toList_ofList]
  decide +kernel

/-! ### Its text -/

def headLines : List (List Char) :=
  ["log_format".toList ++ ' ' :: (logFormatValue.toList ++ [';']),
   "upstream".toList ++ ' ' :: "wiki-app".toList ++ [' ', '\x7b'],
   spaces 4 ++ "least_conn".toList ++ [';']]

def serverUrl (server : IpWeight) : Word := (server.1 ++ ":" ++ toString wikiPort).toList

def serverLine (server : IpWeight) : List Char :=
  "    server ".toList ++ (serverUrl server ++ ' ' :: (weightWord server.2 ++ ";\n".toList))

def fileTail : List Char :=
  "\x7d\nserver \x7b\n    listen 80;\n".toList ++
  "    access_log /var/log/nginx/wikiLog_access_test.log wiki_log;\n \n".toList ++
  "    location / \x7b\n        proxy_pass http://wiki-app;\n    \x7d\n \n".toList ++
  String.toList
    "    location /nginx_status \x7b\n        stub_status;\n        allow all;\n    \x7d\n\x7d\n"

def wikiFile (servers : List IpWeight) : List Char :=
  unlines headLines ++ (servers.flatMap serverLine ++ fileTail)

private def dumpedServer (server : IpWeight) : List Char :=
  spaces 4 ++ ("server".toList ++ ' ' ::
    (server.1 ++ ":" ++ toString wikiPort ++ " weight=" ++ toString server.2).toList) ++ [';']

private theorem dumpParameters_servers (servers : List IpWeight) :
    dumpParameters 4 (servers.map newServer) = some (servers.map dumpedServer) := by
  induction servers with
  | nil => rfl
  | cons server rest ih =>
      have here : newServer server = .list [.text "server".toList,
          .text (server.1 ++ ":" ++ toString wikiPort ++ " weight=" ++ toString server.2).toList] :=
        rfl
      rw [List.map_cons, List.map_cons, here, dumpParameters, ih]
      rfl

private theorem dumpedServer_line (server : IpWeight) :
    dumpedServer server ++ ['\n'] = serverLine server := by
  have blank : " weight=".toList = ' ' :: "weight=".toList := rfl
  have ending : ";\n".toList = [';', '\n'] := rfl
  have begin : "    server ".toList = spaces 4 ++ ("server".toList ++ [' ']) := rfl
  unfold dumpedServer serverLine serverUrl weightWord
  simp only [String.toList_append, blank, ending, begin, List.append_assoc, List.cons_append,
    List.nil_append]

private theorem wikiServer_tail :
    (dumpBlock 0 wikiServer).map (fun lines => unlines ([['\x7d']] ++ lines)) =
      some fileTail := by
  unfold wikiServer fileTail Tree.str
  repeat rw [show String.toList _ = _ from String.toList_ofList]
  decide +kernel

private theorem dump_logFormat :
    dumpBlock 0 wikiLogFormat =
      some ["log_format".toList ++ ' ' :: (logFormatValue.toList ++ [';'])] := by
  have shape : ∀ key value : List Char, dumpBlock 0 (.list [.text key, .text value]) =
      some [key ++ ' ' :: (value ++ [';'])] := by
    intro key value
    rw [dumpBlock]
    simp only [spaces, List.append_assoc, List.cons_append, List.nil_append, if_true,
      List.replicate_zero]
  exact shape _ _

private theorem dump_upstream (servers : List IpWeight) :
    dumpBlock 0 (.list [.list upstreamHeader, .list (leastConn :: servers.map newServer)]) =
      some (headLines.tail ++ (servers.map dumpedServer ++ [['\x7d']])) := by
  have inner : dumpParameters 4 (leastConn :: servers.map newServer) =
      some ((spaces 4 ++ "least_conn".toList ++ [';']) :: servers.map dumpedServer) := by
    rw [show leastConn = .list [.text "least_conn".toList] from rfl, dumpParameters,
      dumpParameters_servers, joinTexts, Option.bind_some, Option.map_some]
  have heading : joinTexts upstreamHeader =
      some ("upstream".toList ++ ' ' :: "wiki-app".toList) := by
    rw [show upstreamHeader = [.text "upstream".toList, .text "wiki-app".toList] from rfl,
      joinTexts, joinTexts, Option.map_some]
    exact List.cons_ne_nil _ _
  rw [dumpBlock, inner, heading]
  rfl

/-- Every line of the file but the servers is fixed. -/
theorem dump_wikiContent (servers : List IpWeight) :
    dump (wikiContent (servers.map newServer)) = some (String.ofList (wikiFile servers)) := by
  have lines : unlines (servers.map dumpedServer) = servers.flatMap serverLine := by
    unfold unlines
    rw [List.flatMap_map]
    exact congrArg (fun line => servers.flatMap line) (funext dumpedServer_line)
  obtain ⟨serverLines, serverDumped, tailText⟩ := Option.map_eq_some_iff.mp wikiServer_tail
  have dumped : dumpBlocks (wikiContent (servers.map newServer)) =
      some (headLines ++ (servers.map dumpedServer ++ ([['\x7d']] ++ serverLines))) := by
    rw [wikiContent, dumpBlocks, dumpBlocks, dumpBlocks, dumpBlocks, dump_logFormat,
      dump_upstream, serverDumped, Option.bind_some, Option.bind_some, Option.bind_some,
      Option.map_some, Option.map_some, Option.map_some, List.append_nil, List.append_assoc,
      List.append_assoc, ← List.append_assoc [_] headLines.tail]
    rfl
  unfold dump wikiFile
  rw [dumped, Option.map_some, ← lines, ← tailText, ← unlines_append, ← unlines_append]
  rfl

/-! ### Its tokens -/

def lineStart : ConfReader := .between [] ['\n']

def logFormatWords : List Word :=
  ["log_format".toList, "wiki_log".toList,
   ("local_time=\"$time_local\" mSecTime=$msec timeISO8601=$time_iso8601 " ++
     "client=$remote_addr ").toList,
   "method=$request_method request=\"$request\" ".toList,
   "request_length=$request_length ".toList,
   "status=$status bytes_sent=$bytes_sent ".toList,
   "body_bytes_sent=$body_bytes_sent ".toList,
   "referer=$http_referer ".toList,
   "user_agent=\"$http_user_agent\" ".toList,
   "upstream_addr=$upstream_addr ".toList,
   "upstream_status=$upstream_status ".toList,
   "request_time=$request_time ".toList,
   "upstream_response_time=$upstream_response_time ".toList,
   "upstream_connect_time=$upstream_connect_time ".toList,
   "upstream_header_time=$upstream_header_time".toList]

def accessLogWords : List Word :=
  ["access_log".toList, "/var/log/nginx/wikiLog_access_test.log".toList, "wiki_log".toList]

def headTokens : List ConfToken :=
  [⟨.ok, logFormatWords⟩,
   ⟨.blockStart, ["upstream".toList, "wiki-app".toList]⟩,
   ⟨.ok, ["least_conn".toList]⟩]

def tailTokens : List ConfToken :=
  [⟨.blockDone, []⟩,
   ⟨.blockStart, ["server".toList]⟩,
   ⟨.ok, ["listen".toList, "80".toList]⟩,
   ⟨.ok, accessLogWords⟩,
   ⟨.blockStart, ["location".toList, "/".toList]⟩,
   ⟨.ok, ["proxy_pass".toList, "http://wiki-app".toList]⟩,
   ⟨.blockDone, []⟩,
   ⟨.blockStart, ["location".toList, "/nginx_status".toList]⟩,
   ⟨.ok, ["stub_status".toList]⟩,
   ⟨.ok, ["allow".toList, "all".toList]⟩,
   ⟨.blockDone, []⟩,
   ⟨.blockDone, []⟩,
   ⟨.fileDone, []⟩]

private theorem spanRun_headLines :
    spanRun .start (unlines headLines) = some (headTokens, lineStart) := by
  unfold headLines headTokens logFormatWords logFormatValue lineStart
  simp only [String.toList_append]
  repeat rw [show String.toList _ = _ from String.toList_ofList]
  decide +kernel

private theorem spanTokens_fileTail : spanTokens lineStart fileTail = tailTokens := by
  unfold fileTail tailTokens accessLogWords lineStart
  repeat rw [show String.toList _ = _ from String.toList_ofList]
  decide +kernel

/-- The line of a server whose weight does not fit into the buffer is where the
reading ends. -/
def serverTokens : List IpWeight → List ConfToken
  | [] => tailTokens
  | server :: rest =>
      if (weightWord server.2).length < confBuffer then
        ⟨.ok, ["server".toList, serverUrl server, weightWord server.2]⟩ :: serverTokens rest
      else
        [⟨.error (.tooLong ((weightWord server.2).take confBuffer)),
          ["server".toList, serverUrl server]⟩]

theorem serverUrl_eq {server : IpWeight} {addr : Nat} (chars : server.1.toList = dotted addr) :
    serverUrl server = sockNtop addr wikiPort := by
  have port : (toString wikiPort).toList = sprintfNum wikiPort := by decide
  have colon : ":".toList = [':'] := String.toList_ofList
  unfold serverUrl sockNtop
  rw [String.toList_append, String.toList_append, chars, port, colon, List.append_assoc]
  rfl

private theorem spanTokens_serverLine {server : IpWeight} (isDotted : dottedIp server.1 = true)
    (rest : List Char) :
    spanTokens lineStart (serverLine server ++ rest) =
      if (weightWord server.2).length < confBuffer then
        ⟨.ok, ["server".toList, serverUrl server, weightWord server.2]⟩ ::
          spanTokens lineStart rest
      else
        [⟨.error (.tooLong ((weightWord server.2).take confBuffer)),
          ["server".toList, serverUrl server]⟩] := by
  obtain ⟨addr, _fits, chars⟩ := exists_addr isDotted
  have url := serverUrl_eq chars
  have inRange : wikiPort ≤ 65535 := by decide
  have plain : plainWord (serverUrl server) = true := by
    rw [url]
    exact plainWord_sockNtop inRange
  have short : (serverUrl server).length + 1 < confBuffer := by
    rw [url]
    have bound := length_sockNtop addr wikiPort
    unfold confBuffer
    omega
  have begun : spanRun lineStart "    server ".toList =
      some ([], .between ["server".toList] ("server".toList ++ [' '])) := by
    unfold lineStart
    repeat rw [show String.toList _ = _ from String.toList_ofList]
    decide
  have ending : ";\n".toList = [';', '\n'] := String.toList_ofList
  have addressed : spanRun (.between ["server".toList] ("server".toList ++ [' ']))
      (serverUrl server ++ [' ']) =
      some ([], .between ["server".toList, serverUrl server] (serverUrl server ++ [' '])) := by
    rw [spanRun_word plain (by omega) (by decide)]
    rfl
  have shape : serverLine server ++ rest = "    server ".toList ++ ((serverUrl server ++ [' ']) ++
      (weightWord server.2 ++ ';' :: '\n' :: rest)) := by
    unfold serverLine
    simp only [ending, List.append_assoc, List.cons_append, List.nil_append]
  have room : (serverUrl server ++ [' ']).length ≠ confBuffer := by
    rw [List.length_append, List.length_singleton]
    exact Nat.ne_of_lt short
  rw [shape, spanTokens_append begun, spanTokens_append addressed,
    spanTokens_last (plainWord_weightWord server.2) room]
  rfl

theorem readFile_wikiFile {servers : List IpWeight}
    (dotted : ∀ server ∈ servers, dottedIp server.1 = true) :
    readFile (wikiFile servers) = headTokens ++ serverTokens servers := by
  have lines : spanTokens lineStart (servers.flatMap serverLine ++ fileTail) =
      serverTokens servers := by
    induction servers with
    | nil => exact spanTokens_fileTail
    | cons server rest ih =>
        obtain ⟨here, later⟩ := List.forall_mem_cons.mp dotted
        rw [List.flatMap_cons, List.append_assoc, spanTokens_serverLine here, ih later,
          serverTokens]
  unfold readFile wikiFile
  rw [readTokens_eq_spanTokens .start 0 _ (by decide), spanTokens_append spanRun_headLines, lines]

/-! ### Its directives -/

/-- The directives of the file that other modules of nginx have to accept. -/
structure Installed (accepts : Accepts) : Prop where
  logFormat : accepts .main logFormatWords = true
  server : accepts .main ["server".toList] = true
  listen : accepts .server ["listen".toList, "80".toList] = true
  accessLog : accepts .server accessLogWords = true
  pages : accepts .server ["location".toList, "/".toList] = true
  proxyPass : accepts .location ["proxy_pass".toList, "http://wiki-app".toList] = true
  status : accepts .server ["location".toList, "/nginx_status".toList] = true
  stubStatus : accepts .location ["stub_status".toList] = true
  allow : accepts .location ["allow".toList, "all".toList] = true

def wikiUpstream (servers : List Server) : UpstreamConf :=
  { host := "wiki-app".toList, flags := allFlags, leastConn := true, servers := servers }

def upstreamReading (servers : List Server) : Reading :=
  { blocks := [.upstream], upstreams := [wikiUpstream servers] }

section Directives

variable {resolver : Resolver} {accepts : Accepts}

private theorem actionOf_file :
    actionOf .main false logFormatWords = some .other ∧
      actionOf .main true ["upstream".toList, "wiki-app".toList] = some .upstream ∧
      actionOf .upstream false ["least_conn".toList] = some .leastConn ∧
      actionOf .main true ["server".toList] = some (.enter .server) ∧
      actionOf .server false ["listen".toList, "80".toList] = some .other ∧
      actionOf .server false accessLogWords = some .other ∧
      actionOf .server true ["location".toList, "/".toList] = some (.enter .location) ∧
      actionOf .location false ["proxy_pass".toList, "http://wiki-app".toList] = some .other ∧
      actionOf .server true ["location".toList, "/nginx_status".toList] =
        some (.enter .location) ∧
      actionOf .location false ["stub_status".toList] = some .other ∧
      actionOf .location false ["allow".toList, "all".toList] = some .other := by
  unfold actionOf commands logFormatWords accessLogWords
  simp only [String.toList_append]
  repeat rw [show String.toList _ = _ from String.toList_ofList]
  decide +kernel

private def namedReading : Reading := ⟨[.upstream], [⟨"wiki-app".toList, allFlags, false, []⟩]⟩

private def within (servers : List Server) (blocks : List Context) : Reading :=
  ⟨blocks, [wikiUpstream servers]⟩

private theorem foldlM_headTokens (installed : Installed accepts) :
    headTokens.foldlM (Reading.token resolver accepts) .start = .ok (upstreamReading []) := by
  obtain ⟨logFormat, upstream, leastConn, _others⟩ := actionOf_file
  have first : Reading.token resolver accepts .start ⟨.ok, logFormatWords⟩ = .ok .start :=
    token_other .start logFormat installed.logFormat
  have second : Reading.token resolver accepts .start
      ⟨.blockStart, ["upstream".toList, "wiki-app".toList]⟩ = .ok namedReading := by
    rw [token_blockStart, confHandler_of_actionOf .start upstream]
    rfl
  have third : namedReading.token resolver accepts ⟨.ok, ["least_conn".toList]⟩ =
      .ok (upstreamReading []) := by
    rw [token_ok, confHandler_of_actionOf namedReading leastConn]
    rfl
  unfold headTokens
  rw [foldlM_token first, foldlM_token second, foldlM_token third]
  rfl

/-- The blocks after the upstream, one directive after the other. -/
private theorem foldlM_tailTokens (installed : Installed accepts) (servers : List Server) :
    (tailTokens.foldlM (Reading.token resolver accepts) (upstreamReading servers)).toOption =
      if servers = [] then none else some ⟨[], [wikiUpstream servers]⟩ := by
  obtain ⟨_logFormat, _upstream, _leastConn, server, listen, accessLog, pages, proxyPass, status,
    stubStatus, allow⟩ := actionOf_file
  unfold tailTokens
  by_cases none : servers = []
  · subst none
    rfl
  · have closed : Reading.token resolver accepts (upstreamReading servers) ⟨.blockDone, []⟩ =
        .ok (within servers []) := by
      have kept : ([wikiUpstream servers].getLast?.all fun last => last.servers.isEmpty) = false :=
        List.isEmpty_eq_false_iff.mpr none
      rw [token_blockDone, Reading.leave, upstreamReading]
      dsimp only
      rw [kept, if_neg fun both => Bool.false_ne_true both.2]
      rfl
    have entered : Reading.token resolver accepts (within servers [])
        ⟨.blockStart, ["server".toList]⟩ = .ok (within servers [.server]) :=
      token_enter (within servers []) server installed.server
    have logged : Reading.token resolver accepts (within servers [.server]) ⟨.ok, accessLogWords⟩ =
        .ok (within servers [.server]) :=
      token_other (within servers [.server]) accessLog installed.accessLog
    have paged : Reading.token resolver accepts (within servers [.server])
        ⟨.blockStart, ["location".toList, "/".toList]⟩ =
          .ok (within servers [.location, .server]) :=
      token_enter (within servers [.server]) pages installed.pages
    have monitored : Reading.token resolver accepts (within servers [.server])
        ⟨.blockStart, ["location".toList, "/nginx_status".toList]⟩ =
          .ok (within servers [.location, .server]) :=
      token_enter (within servers [.server]) status installed.status
    have left : Reading.token resolver accepts (within servers [.location, .server])
        ⟨.blockDone, []⟩ = .ok (within servers [.server]) :=
      token_leave (by decide) [.server] [wikiUpstream servers]
    have ended : Reading.token resolver accepts (within servers [.server]) ⟨.blockDone, []⟩ =
        .ok (within servers []) :=
      token_leave (by decide) [] [wikiUpstream servers]
    rw [if_neg none, foldlM_token closed, foldlM_token entered,
      foldlM_token (token_other (within servers [.server]) listen installed.listen),
      foldlM_token logged, foldlM_token paged,
      foldlM_token (token_other (within servers [.location, .server]) proxyPass
        installed.proxyPass),
      foldlM_token left, foldlM_token monitored,
      foldlM_token (token_other (within servers [.location, .server]) stubStatus
        installed.stubStatus),
      foldlM_token (token_other (within servers [.location, .server]) allow installed.allow),
      foldlM_token left, foldlM_token ended]
    rfl

private theorem actionOf_server (url weight : Word) :
    actionOf .upstream false ["server".toList, url, weight] = some .upstreamServer := by
  have found : (commands.find? fun command =>
      command.name == "server".toList && command.contexts.contains .upstream) =
      some ⟨"server".toList, [.upstream], false, .more 1, .upstreamServer⟩ := by
    unfold commands
    repeat rw [show String.toList _ = _ from String.toList_ofList]
    decide +kernel
  unfold actionOf
  dsimp only
  rw [found]
  rfl

private theorem perform_server (servers : List Server) (args : List Word) :
    ((upstreamReading servers).perform resolver accepts "server".toList args
      .upstreamServer).toOption =
      (httpUpstreamServer resolver allFlags args).toOption.map fun listed =>
        upstreamReading (servers ++ [listed]) := by
  have flags : (wikiUpstream servers).flags = allFlags := rfl
  rw [Reading.perform, Reading.onUpstream, upstreamReading]
  dsimp only [List.getLast?_singleton]
  rw [flags]
  cases httpUpstreamServer resolver allFlags args with
  | error reason => rfl
  | ok listed => rfl

def servedLine (server : IpWeight) : Server :=
  servedServer (server.1 ++ ":" ++ toString wikiPort) server.2

private theorem token_server {server : IpWeight} (isDotted : dottedIp server.1 = true)
    (servers : List Server) :
    (Reading.token resolver accepts (upstreamReading servers)
      ⟨.ok, ["server".toList, serverUrl server, weightWord server.2]⟩).toOption =
      if acceptedWeight server.2 then
        some (upstreamReading (servers ++ [servedLine server]))
      else none := by
  obtain ⟨addr, fits, chars⟩ := exists_addr isDotted
  have port : 1 ≤ wikiPort ∧ wikiPort ≤ 65535 := by decide
  have made := httpUpstreamServer_sockNtop resolver fits port.1 port.2 server.2
  have name : String.ofList (serverUrl server) = server.1 ++ ":" ++ toString wikiPort :=
    String.ofList_toList
  rw [← serverUrl_eq chars, name] at made
  rw [token_ok, confHandler_of_actionOf (upstreamReading servers) (actionOf_server _ _),
    perform_server, made]
  by_cases accepted : acceptedWeight server.2 = true
  · rw [if_pos accepted, if_pos accepted, Option.map_some]
    rfl
  · rw [if_neg accepted, if_neg accepted, Option.map_none]

private theorem foldlM_serverTokens (installed : Installed accepts) {servers : List IpWeight}
    (dotted : ∀ server ∈ servers, dottedIp server.1 = true) (before : List Server) :
    ((serverTokens servers).foldlM (Reading.token resolver accepts)
      (upstreamReading before)).toOption =
      if before ++ servers.map servedLine ≠ [] ∧
          ∀ server ∈ servers, acceptedWeight server.2 = true then
        some ⟨[], [wikiUpstream (before ++ servers.map servedLine)]⟩
      else none := by
  induction servers generalizing before with
  | nil =>
      rw [serverTokens, foldlM_tailTokens installed, List.map_nil, List.append_nil]
      by_cases empty : before = []
      · rw [if_pos empty, if_neg fun both => both.1 empty]
      · rw [if_neg empty, if_pos ⟨empty, fun _ member => absurd member List.not_mem_nil⟩]
  | cons server rest ih =>
      obtain ⟨here, later⟩ := List.forall_mem_cons.mp dotted
      rw [serverTokens, List.map_cons]
      by_cases accepted : acceptedWeight server.2 = true
      · have regrouped : before ++ servedLine server :: rest.map servedLine =
            (before ++ [servedLine server]) ++ rest.map servedLine := by
          rw [List.append_assoc, List.singleton_append]
        rw [if_pos (length_weightWord accepted), foldlM_toOption, token_server here,
          if_pos accepted, Option.bind_some, ih later, regrouped]
        simp only [List.forall_mem_cons, accepted, true_and]
      · have refused : ¬(before ++ servedLine server :: rest.map servedLine ≠ [] ∧
            ∀ other ∈ server :: rest, acceptedWeight other.2 = true) :=
          fun both => accepted (both.2 server List.mem_cons_self)
        rw [if_neg refused]
        by_cases short : (weightWord server.2).length < confBuffer
        · rw [if_pos short, foldlM_toOption, token_server here, if_neg accepted, Option.bind_none]
        · rw [if_neg short, foldlM_toOption]
          rfl

def Accepted (servers : List IpWeight) : Prop :=
  servers ≠ [] ∧ ∀ server ∈ servers, acceptedWeight server.2 = true

instance (servers : List IpWeight) : Decidable (Accepted servers) :=
  inferInstanceAs (Decidable (_ ∧ _))

def servedUpstreams (servers : List IpWeight) : List UpstreamConf :=
  [wikiUpstream (servers.map servedLine)]

theorem confParse_wikiFile (installed : Installed accepts) {servers : List IpWeight}
    (dotted : ∀ server ∈ servers, dottedIp server.1 = true) :
    (confParse resolver accepts (wikiFile servers)).toOption =
      if Accepted servers then some (servedUpstreams servers) else none := by
  have shape : ([] ++ servers.map servedLine ≠ [] ∧
      ∀ server ∈ servers, acceptedWeight server.2 = true) ↔ Accepted servers := by
    unfold Accepted
    rw [List.nil_append, ne_eq, List.map_eq_nil_iff]
  have read : ((serverTokens servers).foldlM (Reading.token resolver accepts)
      (upstreamReading [])).toOption =
      if Accepted servers then some ⟨[], servedUpstreams servers⟩ else none := by
    rw [foldlM_serverTokens installed dotted]
    simp only [shape]
    rfl
  have mapped : ∀ result : Except ConfError Reading,
      (result.map Reading.upstreams).toOption = result.toOption.map Reading.upstreams := by
    intro result
    cases result with
    | error reason => rfl
    | ok reading => rfl
  unfold confParse
  rw [mapped, readFile_wikiFile dotted, List.foldlM_append, foldlM_headTokens installed]
  refine (congrArg (Option.map Reading.upstreams) read).trans ?_
  split <;> rfl

end Directives

end AutoBurst.Conf
