import SysInfo.Programs

/-!
# Alerts

The mail that a session sends for a report above a limit: from the `alerts` of a
client in `server_config.xml` to the ticks of its program.
-/

namespace SysInfo.Alerts
open SysInfo.Text SysInfo.Separated SysInfo.Utils SysInfo.Transition SysInfo.Session SysInfo.SessionRuns SysInfo.PropertyTree
open SysInfo.ServerMain SysInfo.Deployment SysInfo.AuthorizedClients
open SysInfo.Network (inserted)
open SysInfo.Programs (Exchange)

def mail : Event → Option Unit
  | .send_email => some ()
  | _ => none

/-- The calls of `send_email` of a session. -/
def mails (i : Nat) (server : Server.State) : Nat := ((Server.logOf i server.log).filterMap mail).length

/-- The entry of its key has a limit that the report is above. -/
def alerting (authorized_clients : Clients) (c_detail : ClientDetail) : Bool :=
  (authorized_clients.lookup c_detail.client_key).any fun c_config => limitCrossed c_config c_detail

/-- A read sends mail once if what it inserts is above a limit. -/
theorem respond_mail (authorized_clients : Clients) (result : ReadResult) (task : Task) :
    (((respond authorized_clients result task).getD []).filterMap mail).length =
      ((stored authorized_clients result).toList.filter (alerting authorized_clients)).length := by
  cases result with
  | error => rfl
  | data chunk =>
    cases parsed : parse_to_client_detail chunk with
    | none => simp [respond,stored,parsed]
    | some c_detail =>
      have silent := @write_to_db_shows _ mail (fun _ _ => rfl) (generate_insert_str_for c_detail) task
      cases found : authorized_clients.lookup c_detail.client_key with
      | none =>
        have stranger : c_detail.client_key ∉ authorized_clients := Finmap.lookup_eq_none.mp found
        simp [respond,respondTo,stored,parsed,found,stranger,mail]
      | some c_config =>
        have member : c_detail.client_key ∈ authorized_clients := Finmap.mem_of_lookup_eq_some found
        cases crossed : limitCrossed c_config c_detail <;>
          simp [respond,respondTo,stored,parsed,found,member,alerting,crossed,List.filterMap_cons,List.filterMap_append,silent,mail]

/-- A session sends one mail for each detail that it inserts above a limit. -/
theorem mails_eq {authorized_clients : Clients} {inputs : List Server.Input} {server : Server.State}
    (ran : run Server.step (Server.start authorized_clients) inputs = some server) (i : Nat) :
    mails i server = ((inserted i server).filter (alerting authorized_clients)).length := by
  unfold mails
  rw [Server.logOf_projection mail rfl ran,Network.inserted_eq ran]
  induction reads (Server.inputsOf i inputs) with
  | nil => rfl
  | cons read rest ih =>
    rw [List.flatMap_cons,List.length_append,respond_mail,ih,List.filterMap_cons]
    cases stored authorized_clients read.1 with
    | none => simp
    | some c_detail => cases alert : alerting authorized_clients c_detail <;> simp [alert,Nat.add_comm]

/-- The settings of the last client of the file that has the key. -/
def LastClient (boost : Boost) (clients : Ptree) (client_key : Bytes) (c_config : ClientConfig) : Prop :=
  ∃ before client after, clients.children = before ++ (lit "client",client) :: after ∧ Configures boost client c_config ∧
    c_config.client_key = client_key ∧
    ∀ later, (lit "client",later) ∈ after → get_string boost later (lit "key") ≠ some client_key

/-- One of the three numbers of a sample is above its limit. -/
def Exceeds (c_config : ClientConfig) (sample : ClientMain.Sample) : Prop :=
  (c_config.memory_limit.toNat : Int) < sample.memory_percentage.val ∨
    (c_config.cpu_limit.toNat : Int) < sample.cpu_percentage.val ∨
    (c_config.processes_limit.toNat : Int) < sample.no_of_processes.val

/-- The mail about a tick that was connected. -/
structure Alerted (boost : Boost) (clients : Ptree) (client_key : Bytes) (server : Server.State) (exchange : Exchange) :
    Prop where
  at_most_once : mails exchange.connection server ≤ 1
  success : exchange.tick.sent = some .READ_SUCCESS → ∃ c_config, LastClient boost clients client_key c_config ∧
    (mails exchange.connection server = 1 ↔ Exceeds c_config exchange.sample)
  unlisted : ¬ Lists boost clients client_key → mails exchange.connection server = 0

theorem limitCrossed_iff {client_key str_time : Bytes} {sample : ClientMain.Sample} {c_detail : ClientDetail}
    (decodes : Reports.Decodes client_key sample.memory_percentage.val sample.cpu_percentage.val sample.no_of_processes.val
      str_time c_detail) (c_config : ClientConfig) : limitCrossed c_config c_detail = true ↔ Exceeds c_config sample := by
  have memory := decodes.memory
  have cpu := decodes.cpu
  have processes := decodes.processes
  simp only [limitCrossed,Exceeds,Bool.or_eq_true,decide_eq_true_eq,gt_iff_lt,UInt64.lt_iff_toNat_lt]
  omega

theorem lookup_of_listed {boost : Boost} {clients : Ptree} {authorized_clients : Clients}
    (loaded : Loaded boost clients.children authorized_clients) {client_key : Bytes} (lists : Lists boost clients client_key) :
    ∃ c_config, authorized_clients.lookup client_key = some c_config ∧ LastClient boost clients client_key c_config := by
  obtain ⟨c_config,found⟩ := Finmap.mem_iff.mp ((loaded.keys client_key).mpr lists)
  obtain ⟨key,before,client,after,split,configures,last⟩ := loaded.entries client_key c_config found
  exact ⟨c_config,found,before,client,after,split,configures,key,last⟩

theorem alerted_of_reported {boost : Boost} {clients : Ptree} {authorized_clients : Clients} {client_key : Bytes}
    {inputs : List Server.Input} {server : Server.State} {exchange : Exchange}
    (loaded : Loaded boost clients.children authorized_clients)
    (ran : run Server.step (Server.start authorized_clients) inputs = some server)
    (reported : Programs.Reported boost clients client_key server exchange) :
    Alerted boost clients client_key server exchange := by
  have count := mails_eq ran exchange.connection
  refine ⟨?_,?_,?_⟩
  · rw [count]
    rcases reported.at_most_once with none | ⟨_,_,c_detail,_,once,_⟩
    · simp [none]
    · rw [once]
      exact List.length_filter_le _ [c_detail]
  · intro told
    obtain ⟨lists,str_time,c_detail,_,once,decodes⟩ := reported.success told
    obtain ⟨c_config,found,last⟩ := lookup_of_listed loaded lists
    refine ⟨c_config,last,?_⟩
    have alert : alerting authorized_clients c_detail = limitCrossed c_config c_detail := by
      unfold alerting
      rw [decodes.client_key,found]
      rfl
    rw [count,once,← limitCrossed_iff decodes]
    cases crossed : limitCrossed c_config c_detail <;> simp [alert,crossed]
  · intro stranger
    rw [count,reported.at_most_once.resolve_right fun stored => stranger stored.1]
    rfl

/-- However the programs, their server, the network and other peers take turns: a tick
    that was told success had one mail sent exactly if one of its numbers is above the
    limit that the last client with its key has in the file; no tick has two, and none
    whose key the file does not list has one. -/
theorem alerts_by_config {env : Environment} {program typed server_config db_settings : Bytes} {listening : Listening}
    {programs : List ClientMain.State} {moves : List Programs.Move} {s : Programs.State}
    (started : main_start env [program,typed,server_config,db_settings] = .ok listening)
    (ran : run Programs.step (Programs.start programs listening.server) moves = some s) :
    ∃ pt clients, env.read_xml server_config = some pt ∧ get_child env.boost pt (lit "clients") = some clients ∧
      ∀ p program station, programs[p]? = some program → s.stations[p]? = some station → separator ∉ program.client_key →
        Programs.Accounted env.boost clients s.network program station (Programs.historiesOf programs listening.server moves p) ∧
        ∀ exchange ∈ (Programs.historiesOf programs listening.server moves p).made,
          Alerted env.boost clients program.client_key s.network.server exchange := by
  obtain ⟨pt,authorized_clients,read,loads,server⟩ := started_loads started
  obtain ⟨clients,found,children⟩ := Option.bind_eq_some_iff.mp loads
  have loaded := loaded_of_foldlM children
  rw [server] at ran ⊢
  have sound := Programs.run_sound ran
  obtain ⟨moves,network⟩ := sound.network
  obtain ⟨inputs,reached⟩ := Network.run_sound network
  refine ⟨pt,clients,read,found,?_⟩
  intro p program station given there plain
  have account := Programs.accounted loaded.keys sound given there plain
  exact ⟨account,fun exchange member => alerted_of_reported loaded reached.server (account.reported exchange member)⟩

/-- The tick is above its limits, and its mail is sent. -/
theorem alerts_by_config_test : ∃ listening client s station clients history,
    main_start testEnvironment [lit "sys_info_server",lit "8080",lit "server_config.xml",lit "db_settings.xml"] = .ok listening ∧
    run Programs.step (Programs.start [client] listening.server) Programs.testMoves = some s ∧ s.stations[0]? = some station ∧
    Programs.historiesOf [client] listening.server Programs.testMoves 0 = history ∧
    history.made.map (fun exchange => (exchange.connection,exchange.tick.sent)) = [(0,some .READ_SUCCESS)] ∧
    Programs.Accounted firstChild clients s.network client station history ∧ mails 0 s.network.server = 1 ∧
    ∀ exchange ∈ history.made, Alerted firstChild clients client.client_key s.network.server exchange := by
  have ends : ((main_start testEnvironment
      [lit "sys_info_server",lit "8080",lit "server_config.xml",lit "db_settings.xml"]).toOption.bind fun listening =>
      (ClientMain.main_start ClientMain.testArgv (lit "quit\n") .async).bind fun client =>
      run Programs.step (Programs.start [client] listening.server) Programs.testMoves).map
      (fun s => mails 0 s.network.server) = some 1 := by decide +kernel
  obtain ⟨listening,client,s,station,started,client_started,key,ran,found,_,made⟩ := Programs.testMoves_end
  have sent : mails 0 s.network.server = 1 := by simpa [started,client_started,ran,Except.toOption] using ends
  obtain ⟨pt,clients,_,_,accounts⟩ := alerts_by_config started ran
  have plain : separator ∉ client.client_key := by
    rw [key]
    decide
  obtain ⟨account,alerted⟩ := accounts 0 client station rfl found plain
  exact ⟨listening,client,s,station,clients,_,started,ran,found,rfl,made,account,sent,alerted⟩

end SysInfo.Alerts
