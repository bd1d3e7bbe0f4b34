/-
The load balancer as texts: the files of src/src/LoadBalancerUtility.py, their
transfer, and the configuration the nginx master process runs with.

`updateConf` rewrites the text of the temporary file, copies it and asks for a
reload; nginx reads the text it was sent and keeps what it has if it cannot.
The lists of the controller's model are what the texts stand for, step by step.
-/

import AutoBurst.Conf.Served
import AutoBurst.Controller.OnDemandWeight

namespace AutoBurst.Conf

open Controller (IpWeight UpstreamBlock LoadBalancer needsRewrite)
open Nginx Runs

/-! ### Files and processes -/

/-- `cycle` is what the master process last read; `none` before it is started. -/
structure Site where
  prevIpWeight : List IpWeight
  wikiConfigTemp : String
  wikiConfigRemote : String
  cycle : Option (List UpstreamConf)
deriving DecidableEq, Repr

section Site

variable (resolver : Resolver) (accepts : Accepts)

/-- `ngx_init_cycle` reads the file that lies on the load balancer. -/
def Site.initCycle (site : Site) : Option (List UpstreamConf) :=
  (confParse resolver accepts site.wikiConfigRemote.toList).toOption

/-- A master that runs keeps its port, so that a second one ends at once. -/
def Site.startNginx (site : Site) : Site :=
  match site.cycle with
  | none => { site with cycle := site.initCycle resolver accepts }
  | some _old => site

/-- The old cycle stays where the new one cannot be built. -/
def Site.reloadNginxLB (site : Site) : Site :=
  { site with cycle := site.cycle.map fun old => (site.initCycle resolver accepts).getD old }

def Site.sendUpdatedNginxConf (site : Site) (sent : Bool) : Site :=
  if sent then { site with wikiConfigRemote := site.wikiConfigTemp } else site

def Site.initializeNginxConf (site : Site) (serverIpList : List IpWeight) : Option Site :=
  (Conf.initializeNginxConf serverIpList site.wikiConfigTemp).map fun written =>
    { site with wikiConfigTemp := written }

def Site.setupIntialNginxConf (site : Site) (wikiIps : List IpWeight) (sent : Bool) :
    Option Site :=
  if wikiIps.isEmpty then some site
  else
    (Site.initializeNginxConf { site with wikiConfigTemp := wikiConfigBase } wikiIps).map
      fun written =>
        ((written.sendUpdatedNginxConf sent).startNginx resolver accepts).reloadNginxLB
          resolver accepts

def Site.updateConf (site : Site) (ipWeight : List IpWeight) (sent : Bool) : Option Site :=
  let written :=
    if needsRewrite site.prevIpWeight ipWeight then
      (site.initializeNginxConf ipWeight).map fun written =>
        (written.sendUpdatedNginxConf sent).reloadNginxLB resolver accepts
    else some site
  written.map fun written => { written with prevIpWeight := ipWeight }

end Site

/-! ### What the texts stand for -/

def wikiText (servers : List IpWeight) : String := String.ofList (wikiFile servers)

theorem plainIp_of_dotted {ip : String} (isDotted : dottedIp ip = true) : plainIp ip = true := by
  obtain ⟨addr, _fits, chars⟩ := exists_addr isDotted
  unfold plainIp
  rw [chars, List.all_eq_true]
  intro char member
  rcases dotted_chars member with digit | rfl
  · have apart : ∀ other : Char, other.isDigit = false → char ≠ other := by
      intro other noDigit same
      rw [← same, digit] at noDigit
      cases noDigit
    have black : blank char = false := by
      unfold blank
      rw [beq_eq_false_iff_ne.mpr (apart ' ' rfl), beq_eq_false_iff_ne.mpr (apart '\t' rfl),
        beq_eq_false_iff_ne.mpr (apart '\n' rfl), beq_eq_false_iff_ne.mpr (apart '\r' rfl)]
      rfl
    rw [black, List.contains_eq_mem, decide_eq_false]
    · rfl
    · intro marked
      simp only [List.mem_cons, List.not_mem_nil, or_false] at marked
      rcases marked with brace | brace | semicolon | sharp
      · exact apart _ rfl brace
      · exact apart _ rfl brace
      · exact apart _ rfl semicolon
      · exact apart _ rfl sharp
  · decide

private theorem exists_wikiFrame :
    ∃ frame : Frame, ∀ servers, frame.content servers = wikiContent servers := by
  obtain ⟨frame, olds, header, policy, loaded⟩ := exists_baseFrame
  rw [load_wikiConfigBase] at loaded
  obtain ⟨first, others⟩ := List.cons.inj (Option.some.inj loaded)
  have rest := (List.cons.inj others).2
  refine ⟨frame, fun servers => ?_⟩
  unfold Frame.content wikiContent
  rw [header, policy, ← first, ← rest]

private theorem load_wikiText {servers : List IpWeight}
    (dotted : ∀ server ∈ servers, dottedIp server.1 = true) :
    load (wikiText servers) = some (wikiContent (servers.map newServer)) := by
  obtain ⟨frame, content⟩ := exists_wikiFrame
  obtain ⟨file, dumped, loaded⟩ :=
    exists_written frame fun server member => plainIp_of_dotted (dotted server member)
  rw [content, dump_wikiContent] at dumped
  rw [content, ← Option.some.inj dumped] at loaded
  exact loaded

/-- One list of servers is written over another. -/
theorem initializeNginxConf_wikiText {olds : List IpWeight}
    (dotted : ∀ server ∈ olds, dottedIp server.1 = true) (servers : List IpWeight) :
    initializeNginxConf servers (wikiText olds) = some (wikiText servers) := by
  obtain ⟨frame, content⟩ := exists_wikiFrame
  have loaded := load_wikiText dotted
  rw [← content] at loaded
  rw [initializeNginxConf_eq frame loaded, content, dump_wikiContent]
  rfl

theorem initializeNginxConf_base (servers : List IpWeight) :
    initializeNginxConf servers wikiConfigBase = some (wikiText servers) := by
  obtain ⟨frame, content⟩ := exists_wikiFrame
  have loaded := load_wikiConfigBase
  rw [← content] at loaded
  rw [initializeNginxConf_eq frame loaded, content, dump_wikiContent]
  rfl

/-! ### The lists behind the texts -/

structure Service where
  lb : LoadBalancer
  served : List IpWeight

/-- A reload serves the list on the load balancer, if nginx takes it. -/
def Service.updateConf (service : Service) (ipWeight : List IpWeight) (sent : Bool) : Service :=
  let lb := Controller.updateWith service.lb ipWeight sent
  { lb := lb
    served :=
      if needsRewrite service.lb.prevIpWeight ipWeight = true ∧
          Accepted lb.wikiConfigRemote.servers then lb.wikiConfigRemote.servers
      else service.served }

def Service.site (service : Service) : Site :=
  { prevIpWeight := service.lb.prevIpWeight
    wikiConfigTemp := wikiText service.lb.wikiConfigTemp.servers
    wikiConfigRemote := wikiText service.lb.wikiConfigRemote.servers
    cycle := some (servedUpstreams service.served) }

def DottedIps (servers : List IpWeight) : Prop := ∀ server ∈ servers, dottedIp server.1 = true

instance (servers : List IpWeight) : Decidable (DottedIps servers) :=
  inferInstanceAs (Decidable (∀ server ∈ servers, _))

structure Service.Sound (service : Service) : Prop where
  temp : DottedIps service.lb.wikiConfigTemp.servers
  remote : DottedIps service.lb.wikiConfigRemote.servers
  served : Accepted service.served

section Refinement

variable {resolver : Resolver} {accepts : Accepts} {service : Service} {ipWeight : List IpWeight}

theorem initCycle_wikiText (installed : Installed accepts) {site : Site} {servers : List IpWeight}
    (remote : site.wikiConfigRemote = wikiText servers) (dotted : DottedIps servers) :
    site.initCycle resolver accepts =
      if Accepted servers then some (servedUpstreams servers) else none := by
  unfold Site.initCycle wikiText at *
  rw [remote, String.toList_ofList, confParse_wikiFile installed dotted]

/-- A reload of a file that nginx refuses changes nothing. -/
theorem reloadNginxLB_site (installed : Installed accepts)
    (remote : DottedIps service.lb.wikiConfigRemote.servers) :
    service.site.reloadNginxLB resolver accepts =
      { service.site with
        cycle := some (servedUpstreams (if Accepted service.lb.wikiConfigRemote.servers then
          service.lb.wikiConfigRemote.servers else service.served)) } := by
  have text : service.site.wikiConfigRemote = wikiText service.lb.wikiConfigRemote.servers := rfl
  have running : service.site.cycle = some (servedUpstreams service.served) := rfl
  unfold Site.reloadNginxLB
  rw [initCycle_wikiText installed text remote, running, Option.map_some]
  generalize service.lb.wikiConfigRemote.servers = servers
  by_cases accepted : Accepted servers
  · rw [if_pos accepted, if_pos accepted, Option.getD_some]
  · rw [if_neg accepted, if_neg accepted, Option.getD_none]

theorem updateWith_skipped {lb : LoadBalancer}
    (skipped : needsRewrite lb.prevIpWeight ipWeight = false) (sent : Bool) :
    Controller.updateWith lb ipWeight sent = { lb with prevIpWeight := ipWeight } := by
  unfold Controller.updateWith
  rw [skipped]
  rfl

theorem updateWith_written {lb : LoadBalancer}
    (rewritten : needsRewrite lb.prevIpWeight ipWeight = true) (sent : Bool) :
    Controller.updateWith lb ipWeight sent =
      { lb with
        prevIpWeight := ipWeight
        wikiConfigTemp := { lb.wikiConfigTemp with servers := ipWeight }
        wikiConfigRemote :=
          if sent then { lb.wikiConfigTemp with servers := ipWeight }
          else lb.wikiConfigRemote } := by
  unfold Controller.updateWith Controller.sendUpdatedNginxConf
  rw [rewritten]
  cases sent <;> rfl

theorem Service.Sound.update (sound : service.Sound) (dotted : DottedIps ipWeight) (sent : Bool) :
    (service.updateConf ipWeight sent).Sound := by
  have files : DottedIps (Controller.updateWith service.lb ipWeight sent).wikiConfigTemp.servers ∧
      DottedIps (Controller.updateWith service.lb ipWeight sent).wikiConfigRemote.servers := by
    cases rewritten : needsRewrite service.lb.prevIpWeight ipWeight with
    | false =>
        rw [updateWith_skipped rewritten]
        exact ⟨sound.temp, sound.remote⟩
    | true =>
        rw [updateWith_written rewritten]
        cases sent with
        | false => exact ⟨dotted, sound.remote⟩
        | true => exact ⟨dotted, dotted⟩
  refine ⟨files.1, files.2, ?_⟩
  unfold Service.updateConf
  dsimp only
  split
  · rename_i taken
    exact taken.2
  · exact sound.served

/-- The files are written and sent, but nginx is not reloaded yet. -/
private def Service.written (service : Service) (ipWeight : List IpWeight) (sent : Bool) :
    Service :=
  { service with
    lb := { Controller.updateWith service.lb ipWeight sent with
      prevIpWeight := service.lb.prevIpWeight } }

/-- One update of the texts is one update of the lists. -/
theorem updateConf_site (installed : Installed accepts) (sound : service.Sound)
    (dotted : DottedIps ipWeight) (sent : Bool) :
    service.site.updateConf resolver accepts ipWeight sent =
      some (service.updateConf ipWeight sent).site := by
  cases rewritten : needsRewrite service.lb.prevIpWeight ipWeight with
  | false =>
      have skipped : needsRewrite service.site.prevIpWeight ipWeight = false := rewritten
      unfold Site.updateConf Service.updateConf
      rw [skipped, rewritten, updateWith_skipped rewritten]
      rfl
  | true =>
      have again : needsRewrite service.site.prevIpWeight ipWeight = true := rewritten
      have texts : service.site.initializeNginxConf ipWeight =
          some { service.site with wikiConfigTemp := wikiText ipWeight } := by
        unfold Site.initializeNginxConf
        rw [show service.site.wikiConfigTemp = wikiText _ from rfl,
          initializeNginxConf_wikiText sound.temp, Option.map_some]
      have sending : Site.sendUpdatedNginxConf
          { service.site with wikiConfigTemp := wikiText ipWeight } sent =
            (service.written ipWeight sent).site := by
        unfold Service.written
        rw [updateWith_written rewritten]
        cases sent <;> rfl
      have reloaded : (service.written ipWeight sent).site.reloadNginxLB resolver accepts = _ :=
        reloadNginxLB_site installed (sound.update dotted sent).remote
      unfold Site.updateConf Service.updateConf
      dsimp only
      rw [again, if_pos rfl, texts, Option.map_some, rewritten, sending, reloaded, Option.map_some]
      simp only [true_and]
      rfl

/-! ### Any sequence of updates -/

/-- The texts follow the lists through every sequence of updates, whichever
transfers fail. -/
theorem run_updateConf (installed : Installed accepts) (sound : service.Sound)
    {updates : List (List IpWeight × Bool)}
    (dotted : ∀ update ∈ updates, DottedIps update.1) :
    run (fun site update => Site.updateConf resolver accepts site update.1 update.2)
        service.site updates =
      some (updates.foldl (fun service update => service.updateConf update.1 update.2)
        service).site ∧
      (updates.foldl (fun service update => service.updateConf update.1 update.2)
        service).Sound := by
  induction updates generalizing service with
  | nil => exact ⟨rfl, sound⟩
  | cons update rest ih =>
      obtain ⟨here, later⟩ := List.forall_mem_cons.mp dotted
      rw [run, updateConf_site installed sound here]
      exact ih (sound.update here update.2) later

/-! ### From the set-up on -/

def wikiIps (created : List Controller.Info) : List IpWeight :=
  created.map fun info => (info.privateIpAddress, 1)

/-- After the set-up, whose own transfer is taken to succeed: with one that fails
nginx would start on whatever file the machine had before. -/
def Service.launch (base : UpstreamBlock) (created : List Controller.Info) : Service :=
  { lb := Controller.setupIntialNginxConf base created true, served := wikiIps created }

variable {base : UpstreamBlock} {created : List Controller.Info}

private theorem accepted_wikiIps (nonempty : created ≠ []) : Accepted (wikiIps created) := by
  constructor
  · unfold wikiIps
    rw [ne_eq, List.map_eq_nil_iff]
    exact nonempty
  · intro server member
    obtain ⟨info, _listed, rfl⟩ := List.mem_map.mp member
    change acceptedWeight 1 = true
    decide

theorem launch_lb (nonempty : created ≠ []) :
    (Service.launch base created).lb =
      { prevReqs := 0, prevIpWeight := [],
        wikiConfigTemp := { base with servers := wikiIps created },
        wikiConfigRemote := { base with servers := wikiIps created } } := by
  cases created with
  | nil => exact absurd rfl nonempty
  | cons info rest => rfl

theorem sound_launch (nonempty : created ≠ []) (dotted : DottedIps (wikiIps created)) :
    (Service.launch base created).Sound := by
  refine ⟨?_, ?_, accepted_wikiIps nonempty⟩
  · rw [launch_lb nonempty]
    exact dotted
  · rw [launch_lb nonempty]
    exact dotted

private def Site.sent (site : Site) (text : String) : Site :=
  { site with wikiConfigTemp := text, wikiConfigRemote := text }

private theorem sent_wikiConfigRemote (site : Site) (text : String) :
    (site.sent text).wikiConfigRemote = text := rfl

private theorem sent_cycle (site : Site) (text : String) : (site.sent text).cycle = site.cycle :=
  rfl

private theorem sendUpdatedNginxConf_sent (site : Site) (text : String) :
    Site.sendUpdatedNginxConf { site with wikiConfigTemp := text } true = site.sent text := rfl

/-- nginx is started on the file that lists every created instance. -/
theorem setupIntialNginxConf_site (installed : Installed accepts) {site : Site}
    (fresh : site.prevIpWeight = []) (idle : site.cycle = none) (nonempty : created ≠ [])
    (dotted : DottedIps (wikiIps created)) :
    site.setupIntialNginxConf resolver accepts (wikiIps created) true =
      some (Service.launch base created).site := by
  have listed : (wikiIps created).isEmpty = false :=
    List.isEmpty_eq_false_iff.mpr (accepted_wikiIps nonempty).1
  have texts : Site.initializeNginxConf { site with wikiConfigTemp := wikiConfigBase }
      (wikiIps created) = some { site with wikiConfigTemp := wikiText (wikiIps created) } := by
    unfold Site.initializeNginxConf
    dsimp only
    rw [initializeNginxConf_base, Option.map_some]
  have read : (site.sent (wikiText (wikiIps created))).initCycle resolver accepts =
      some (servedUpstreams (wikiIps created)) := by
    rw [initCycle_wikiText installed (sent_wikiConfigRemote site _) dotted,
      if_pos (accepted_wikiIps nonempty)]
  have started : (site.sent (wikiText (wikiIps created))).startNginx resolver accepts =
      (Service.launch base created).site := by
    unfold Site.startNginx Service.site
    rw [sent_cycle, idle, read, launch_lb nonempty, ← fresh]
    rfl
  have reloaded : (Service.launch base created).site.reloadNginxLB resolver accepts =
      (Service.launch base created).site := by
    rw [reloadNginxLB_site installed (sound_launch nonempty dotted).remote, launch_lb nonempty,
      if_pos (accepted_wikiIps nonempty)]
    unfold Service.site
    rw [launch_lb nonempty]
    rfl
  unfold Site.setupIntialNginxConf
  rw [listed, if_neg Bool.false_ne_true, texts, Option.map_some, sendUpdatedNginxConf_sent, started,
    reloaded]

end Refinement

theorem foldl_updateConf_lb (service : Service) (updates : List (List IpWeight × Bool)) :
    (updates.foldl (fun service update => service.updateConf update.1 update.2) service).lb =
      updates.foldl (fun lb update => Controller.updateWith lb update.1 update.2) service.lb := by
  induction updates generalizing service with
  | nil => rfl
  | cons update rest ih => exact ih (service.updateConf update.1 update.2)

/-- From the set-up on, whose own transfer succeeds, whatever lists are written and
whichever later transfers fail, no exception is raised, the texts are those of the
controller's lists, and nginx serves a list it took: the one on the load balancer
at the last reload that it did not refuse. -/
theorem texts_follow_lists (resolver : Resolver) (accepts : Accepts)
    (installed : Installed accepts) (base : UpstreamBlock) (created : List Controller.Info)
    (site : Site) (updates : List (List IpWeight × Bool)) (fresh : site.prevIpWeight = [])
    (idle : site.cycle = none) (nonempty : created ≠ []) (dotted : DottedIps (wikiIps created))
    (dottedUpdates : ∀ update ∈ updates, DottedIps update.1) :
    let service := updates.foldl (fun service update => service.updateConf update.1 update.2)
      (Service.launch base created)
    ((site.setupIntialNginxConf resolver accepts (wikiIps created) true).bind fun launched =>
        run (fun site update => Site.updateConf resolver accepts site update.1 update.2) launched
          updates) = some service.site ∧
      service.lb = updates.foldl (fun lb update => Controller.updateWith lb update.1 update.2)
        (Controller.setupIntialNginxConf base created true) ∧
      Accepted service.served := by
  intro service
  have sound : (Service.launch base created).Sound := sound_launch nonempty dotted
  have launched : site.setupIntialNginxConf resolver accepts (wikiIps created) true =
      some (Service.launch base created).site :=
    setupIntialNginxConf_site installed fresh idle nonempty dotted
  have followed : run (fun site update => Site.updateConf resolver accepts site update.1 update.2)
      (Service.launch base created).site updates = some service.site ∧ service.Sound :=
    run_updateConf installed sound dottedUpdates
  refine ⟨?_, foldl_updateConf_lb _ updates, followed.2.served⟩
  rw [launched, Option.bind_some]
  exact followed.1

def sampleResolver : Resolver :=
  { parseUnixDomainUrl := fun _url => .error "no path in the unix domain socket"
    parseInet6Url := fun _url => .error "invalid host"
    inetResolveHost := fun _host _port => .error "host not found" }

def sampleAccepts : Accepts := fun _context _words => true

theorem sampleAccepts_installed : Installed sampleAccepts :=
  ⟨rfl, rfl, rfl, rfl, rfl, rfl, rfl, rfl, rfl⟩

def sampleSite : Site :=
  { prevIpWeight := [], wikiConfigTemp := "", wikiConfigRemote := "", cycle := none }

def sampleInfos : List Controller.Info :=
  [⟨"i-01", "m5.large", "10.0.0.1"⟩, ⟨"i-02", "t3.small", "10.0.0.2"⟩]

/-- The second update has a weight nginx refuses, the third is not transferred. -/
def sampleUpdates : List (List IpWeight × Bool) :=
  [([("10.0.0.1", 1000), ("10.0.0.2", 10)], true), ([("10.0.0.1", 0)], true),
   ([("10.0.0.2", 20)], false)]

theorem texts_follow_lists_sample :
    let service := sampleUpdates.foldl
      (fun service update => service.updateConf update.1 update.2)
      (Service.launch ⟨"least_conn", []⟩ sampleInfos)
    service.served = [("10.0.0.1", 1000), ("10.0.0.2", 10)] ∧
      ((sampleSite.setupIntialNginxConf sampleResolver sampleAccepts (wikiIps sampleInfos)
          true).bind fun launched =>
        run (fun site update => Site.updateConf sampleResolver sampleAccepts site update.1 update.2)
          launched sampleUpdates) = some service.site ∧
      service.lb = sampleUpdates.foldl
        (fun lb update => Controller.updateWith lb update.1 update.2)
        (Controller.setupIntialNginxConf ⟨"least_conn", []⟩ sampleInfos true) ∧
      Accepted service.served :=
  ⟨by decide +kernel,
    texts_follow_lists sampleResolver sampleAccepts sampleAccepts_installed ⟨"least_conn", []⟩
      sampleInfos sampleSite sampleUpdates rfl rfl (by decide) (by decide +kernel)
      (by decide +kernel)⟩

end AutoBurst.Conf
