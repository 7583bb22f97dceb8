import SysInfo.ClientMain
import SysInfo.Network
import SysInfo.ServerMain

/-!
# Clients of a configured server

The server program with the map that it loaded, and the lines of the client program,
over the network: from `server_config.xml` to the reply that a client reads and to the
detail that is inserted for it.
-/

namespace SysInfo.Deployment
open SysInfo.Text SysInfo.Separated SysInfo.Utils SysInfo.Transition SysInfo.Session SysInfo.PropertyTree
open SysInfo.ServerMain SysInfo.Network SysInfo.ClientMain SysInfo.AuthorizedClients

/-- Some `client` of the file has the key. -/
def Lists (boost : Boost) (clients : Ptree) (client_key : Bytes) : Prop :=
  ∃ client, (lit "client",client) ∈ clients.children ∧ get_string boost client (lit "key") = some client_key

/-- The map of a file has the keys of its clients. -/
theorem mem_loaded {boost : Boost} {pt : Ptree} {authorized_clients : Clients}
    (loads : get_authorized_clients_and_details boost pt = some authorized_clients) :
    ∃ clients, get_child boost pt (lit "clients") = some clients ∧
      ∀ client_key, client_key ∈ authorized_clients ↔ Lists boost clients client_key := by
  obtain ⟨clients,found,loads⟩ := Option.bind_eq_some_iff.mp loads
  exact ⟨clients,found,(loaded_of_foldlM loads).keys⟩

/-- The program listens with the map of its file. -/
theorem started_loads {env : Environment} {program typed server_config db_settings : Bytes} {listening : Listening}
    (started : main_start env [program,typed,server_config,db_settings] = .ok listening) :
    ∃ pt authorized_clients, env.read_xml server_config = some pt ∧
      get_authorized_clients_and_details env.boost pt = some authorized_clients ∧
      listening.server = Server.start authorized_clients := by
  obtain ⟨_,authorized_clients,connection_string,loaded,rfl⟩ := main_start_ok_iff.mp started
  obtain ⟨pt,read,loaded⟩ := Option.bind_eq_some_iff.mp loaded
  obtain ⟨loads,loading,loaded⟩ := Option.bind_eq_some_iff.mp loaded
  obtain ⟨settings,_,loaded⟩ := Option.bind_eq_some_iff.mp loaded
  obtain ⟨connection,_,loaded⟩ := Option.bind_eq_some_iff.mp loaded
  split at loaded
  · cases loaded
    exact ⟨pt,_,read,loading,rfl⟩
  · cases loaded

/-- The fields of the line of a tick. -/
theorem line_of_sample (client_key : Bytes) (sample : Sample) :
    line_to_be_written client_key sample = Reports.line client_key (to_string_int sample.memory_percentage.val)
      (to_string_int sample.cpu_percentage.val) (to_string_int sample.no_of_processes.val) sample.str_time :=
  Reports.generate_random_sys_info_data_eq _ _ _ _ _

theorem numeral_of_percent (percent : Percent) : integerValue (to_string_int percent.val) = some percent.val := by
  apply Reports.integerValue_to_string_int
  have low := percent.property.1
  omega

theorem number_of_percent (percent : Percent) : ((Reports.number (to_string_int percent.val)).toNat : Int) = percent.val := by
  have bounds := percent.property
  exact ((Reports.number_numeral (numeral_of_percent percent)).mpr ⟨by omega,by omega⟩).1

theorem plain_of_sample {client_key : Bytes} (plain : separator ∉ client_key) (sample : Sample) :
    ∀ field ∈ [client_key,to_string_int sample.memory_percentage.val,to_string_int sample.cpu_percentage.val,
      to_string_int sample.no_of_processes.val,sample.str_time], separator ∉ field := by
  simp only [List.forall_mem_cons]
  refine ⟨plain,?_,?_,?_,sample.plain,by simp⟩
  · exact Reports.separator_not_mem_numeral (numeral_of_percent _)
  · exact Reports.separator_not_mem_numeral (numeral_of_percent _)
  · exact Reports.separator_not_mem_numeral (numeral_of_percent _)

/-- A connection whose line is that of a tick, against the file of the server. -/
structure Served (boost : Boost) (clients : Ptree) (client_key : Bytes) (sample : Sample) (c : Connection)
    (details : List ClientDetail) : Prop where
  success : Told c .READ_SUCCESS → Lists boost clients client_key ∧ details ≠ []
  not_authorized : Told c .NOT_AUTHORIZED → ¬ Lists boost clients client_key ∧ details = []
  failure : ¬ Told c .READ_FAILURE
  /-- The detail of the tick, but for an end of its time. -/
  inserted : details = [] ∨ Lists boost clients client_key ∧ ∃ str_time c_detail, str_time <+: sample.str_time ∧
    details = [c_detail] ∧ Reports.Decodes client_key sample.memory_percentage.val sample.cpu_percentage.val
      sample.no_of_processes.val str_time c_detail

theorem served {authorized_clients : Clients} {boost : Boost} {clients : Ptree}
    (keys : ∀ client_key, client_key ∈ authorized_clients ↔ Lists boost clients client_key) {moves : List Move}
    {n : Network.State} {i : Nat} {c : Connection} {client_key : Bytes} {sample : Sample}
    (ran : run Network.step (Network.start authorized_clients) moves = some n) (connection : n.connections[i]? = some c)
    (line : c.line = line_to_be_written client_key sample) (plain : separator ∉ client_key) :
    Served boost clients client_key sample c (inserted i n.server) := by
  rw [line_of_sample] at line
  have fields := plain_of_sample plain sample
  have key : firstField separator c.line = client_key := by
    rw [line]
    exact firstField_append_cons plain _
  have told : ∀ {reply}, Told c reply → reply = if client_key ∈ authorized_clients then .READ_SUCCESS else .NOT_AUTHORIZED := by
    intro reply told
    rw [← key]
    exact run_told ran connection told
  have cases := inserted_cases ran connection line fields
  refine ⟨?_,?_,?_,?_⟩
  · intro success
    refine ⟨?_,inserted_of_success ran connection success⟩
    rw [← keys]
    by_contra stranger
    have wrong := told success
    rw [if_neg stranger] at wrong
    cases wrong
  · intro refused
    have stranger : client_key ∉ authorized_clients := by
      intro authorized
      have wrong := told refused
      rw [if_pos authorized] at wrong
      cases wrong
    constructor
    · rwa [← keys]
    · exact cases.resolve_right fun inserted => stranger inserted.1
  · intro failure
    have wrong := told failure
    split at wrong <;> cases wrong
  · rcases cases with none | ⟨authorized,shorter,start,inserted⟩
    · exact .inl none
    · refine .inr ⟨(keys client_key).mp authorized,shorter,_,start,inserted,rfl,?_,?_,?_,rfl⟩
      · exact number_of_percent _
      · exact number_of_percent _
      · exact number_of_percent _

/-- From the file of the server to its clients, whatever else happens on the network:
    a client is told success exactly for a key that the file lists, never of a failure,
    and the one detail that is inserted for it has its key and its numbers. -/
theorem config_to_reply {env : Environment} {program typed server_config db_settings : Bytes} {listening : Listening}
    (started : main_start env [program,typed,server_config,db_settings] = .ok listening) :
    ∃ pt clients, env.read_xml server_config = some pt ∧ get_child env.boost pt (lit "clients") = some clients ∧
      ∀ (moves : List Move) (n : Network.State) (i : Nat) (c : Connection) (client_key : Bytes) (sample : Sample),
        run Network.step ⟨[],listening.server⟩ moves = some n → n.connections[i]? = some c →
        c.line = line_to_be_written client_key sample → separator ∉ client_key →
        Served env.boost clients client_key sample c (inserted i n.server) := by
  obtain ⟨pt,authorized_clients,read,loads,server⟩ := started_loads started
  obtain ⟨clients,found,keys⟩ := mem_loaded loads
  refine ⟨pt,clients,read,found,?_⟩
  intro moves n i c client_key sample ran connection line plain
  rw [server] at ran
  exact served keys ran connection line plain

theorem ok_of_toOption {Error Value : Type} {result : Except Error Value} {value : Value}
    (same : result.toOption = some value) : result = .ok value := by
  cases result with
  | error _ => cases same
  | ok _ => rw [Option.some.inj same]

/-- The program with the files of `test/resources`, and a client whose key they list. -/
theorem config_to_reply_test : ∃ listening n clients c,
    main_start testEnvironment [lit "sys_info_server",lit "8080",lit "server_config.xml",lit "db_settings.xml"] = .ok listening ∧
    run Network.step ⟨[],listening.server⟩ (exchanged (line_to_be_written (lit "jill") testSample)) = some n ∧
    Told c .READ_SUCCESS ∧ Served firstChild clients (lit "jill") testSample c (inserted 0 n.server) := by
  have answered : ((main_start testEnvironment
      [lit "sys_info_server",lit "8080",lit "server_config.xml",lit "db_settings.xml"]).toOption.bind fun listening =>
      run Network.step ⟨[],listening.server⟩ (exchanged (line_to_be_written (lit "jill") testSample))).map Network.State.connections =
      some [⟨line_to_be_written (lit "jill") testSample,[],[],[],some 48,false⟩] := by decide +kernel
  obtain ⟨n,reached,connections⟩ := Option.map_eq_some_iff.mp answered
  obtain ⟨listening,started,ran⟩ := Option.bind_eq_some_iff.mp reached
  have started := ok_of_toOption started
  obtain ⟨pt,clients,_,_,served⟩ := config_to_reply started
  have told : Told ⟨line_to_be_written (lit "jill") testSample,[],[],[],some 48,false⟩ .READ_SUCCESS := by
    unfold Told
    decide
  refine ⟨listening,n,clients,_,started,ran,told,?_⟩
  exact served _ n 0 _ (lit "jill") testSample ran (by rw [connections]; rfl) rfl (by decide)

end SysInfo.Deployment
