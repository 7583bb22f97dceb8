import SysInfo.PropertyTree
import SysInfo.Utils

/-!
# The map of authorized clients

How `get_authorized_clients_and_details` builds the map from `server_config.xml`,
and what the two functions that look keys up in it do to it.
-/

namespace SysInfo.AuthorizedClients
open SysInfo.Text SysInfo.PropertyTree SysInfo.Utils

/-! ## Loading -/

variable (boost : Boost)

/-- The body of the loop for a child named `client`. -/
def client_config_of (client : Ptree) : Option ClientConfig := do
  let client_key ← get_string boost client (lit "key")
  let email ← get_string boost client (lit "email")
  let memory_limit ← get_size_t boost (← get_child boost client (lit "alerts")) (lit "memory")
  let cpu_limit ← get_size_t boost (← get_child boost client (lit "alerts")) (lit "cpu")
  let processes_limit ← get_size_t boost (← get_child boost client (lit "alerts")) (lit "processes")
  return { client_key, email, memory_limit, cpu_limit, processes_limit }

def add_client (authorized_clients_and_details : Clients) (client : Bytes × Ptree) : Option Clients :=
  if client.1 = lit "client" then do
    let c_info ← client_config_of boost client.2
    return authorized_clients_and_details.insert c_info.client_key c_info
  else return authorized_clients_and_details

/-- The function on the tree that `read_xml` made of the file. -/
def get_authorized_clients_and_details (pt : Ptree) : Option Clients := do
  (← get_child boost pt (lit "clients")).children.foldlM (add_client boost) ∅

/-- The node has the five settings, and the limits convert. -/
structure Configures (client : Ptree) (c_config : ClientConfig) : Prop where
  client_key : get_string boost client (lit "key") = some c_config.client_key
  email : get_string boost client (lit "email") = some c_config.email
  alerts : ∃ alerts, get_child boost client (lit "alerts") = some alerts ∧
    get_size_t boost alerts (lit "memory") = some c_config.memory_limit ∧
    get_size_t boost alerts (lit "cpu") = some c_config.cpu_limit ∧
    get_size_t boost alerts (lit "processes") = some c_config.processes_limit

variable {boost}

theorem client_config_of_iff {client : Ptree} {c_config : ClientConfig} :
    client_config_of boost client = some c_config ↔ Configures boost client c_config := by
  constructor
  · intro read
    obtain ⟨client_key,key,read⟩ := Option.bind_eq_some_iff.mp read
    obtain ⟨email,mail,read⟩ := Option.bind_eq_some_iff.mp read
    obtain ⟨alerts,node,read⟩ := Option.bind_eq_some_iff.mp read
    simp only [node,Option.bind_eq_bind,Option.bind_some] at read
    obtain ⟨memory,memory_limit,read⟩ := Option.bind_eq_some_iff.mp read
    obtain ⟨cpu,cpu_limit,read⟩ := Option.bind_eq_some_iff.mp read
    obtain ⟨processes,processes_limit,read⟩ := Option.bind_eq_some_iff.mp read
    cases Option.some.inj read
    exact ⟨key,mail,alerts,node,memory_limit,cpu_limit,processes_limit⟩
  · rintro ⟨key,mail,alerts,node,memory_limit,cpu_limit,processes_limit⟩
    simp [client_config_of,key,mail,node,memory_limit,cpu_limit,processes_limit]

/-- A client without one of the nodes is not read. -/
theorem not_configures_of_missing {client : Ptree} {name : Bytes} (needed : name ∈ [lit "key",lit "email",lit "alerts"])
    (missing : ∀ child, (name,child) ∉ client.children) (c_config : ClientConfig) : ¬ Configures boost client c_config := by
  have plain : ∀ name ∈ [lit "key",lit "email",lit "alerts"], dot ∉ name := by decide
  have none : get_child boost client name = none := (get_child_eq_none_iff (plain name needed)).mpr missing
  rintro ⟨key,mail,alerts,node,_⟩
  simp only [List.mem_cons,List.not_mem_nil,or_false] at needed
  rcases needed with rfl | rfl | rfl
  · simp [get_string,none] at key
  · simp [get_string,none] at mail
  · simp [none] at node

/-! ## What was loaded -/

variable (boost)

/-- The map holds the key of every `client` child and nothing else, each with the
    settings of the last one that has it. -/
structure Loaded (children : List (Bytes × Ptree)) (authorized_clients : Clients) : Prop where
  keys : ∀ key, key ∈ authorized_clients ↔
    ∃ client, (lit "client",client) ∈ children ∧ get_string boost client (lit "key") = some key
  entries : ∀ key c_config, authorized_clients.lookup key = some c_config → c_config.client_key = key ∧
    ∃ before client after, children = before ++ (lit "client",client) :: after ∧ Configures boost client c_config ∧
      ∀ later, (lit "client",later) ∈ after → get_string boost later (lit "key") ≠ some key

variable {boost}

theorem loaded_nil : Loaded boost [] ∅ := by
  refine ⟨?_,?_⟩
  · simp [Finmap.notMem_empty]
  · intro key c_config found
    simp at found

/-- The last client with a key stays the last when a child without it follows. -/
private theorem last_snoc {children : List (Bytes × Ptree)} {child : Bytes × Ptree} {key : Bytes} {c_config : ClientConfig}
    (last : ∃ before client after, children = before ++ (lit "client",client) :: after ∧ Configures boost client c_config ∧
      ∀ later, (lit "client",later) ∈ after → get_string boost later (lit "key") ≠ some key)
    (other : ∀ client, (lit "client",client) = child → get_string boost client (lit "key") ≠ some key) :
    ∃ before client after, children ++ [child] = before ++ (lit "client",client) :: after ∧ Configures boost client c_config ∧
      ∀ later, (lit "client",later) ∈ after → get_string boost later (lit "key") ≠ some key := by
  obtain ⟨before,client,after,split,configures,quiet⟩ := last
  refine ⟨before,client,after ++ [child],by simp [split],configures,?_⟩
  intro later member
  rcases List.mem_append.mp member with inside | new
  · exact quiet later inside
  · exact other later (List.mem_singleton.mp new)

/-- A client more takes the place of an earlier one with its key. -/
theorem loaded_client {children : List (Bytes × Ptree)} {client : Ptree} {c_info : ClientConfig} {authorized_clients : Clients}
    (loaded : Loaded boost children authorized_clients) (configures : Configures boost client c_info) :
    Loaded boost (children ++ [(lit "client",client)]) (authorized_clients.insert c_info.client_key c_info) := by
  refine ⟨?_,?_⟩
  · intro key
    rw [Finmap.mem_insert,loaded.keys]
    constructor
    · rintro (rfl | ⟨node,member,key⟩)
      · exact ⟨client,by simp,configures.client_key⟩
      · exact ⟨node,by simp [member],key⟩
    · rintro ⟨node,member,key⟩
      rcases List.mem_append.mp member with earlier | last
      · exact .inr ⟨node,earlier,key⟩
      · obtain ⟨_,rfl⟩ := Prod.mk.inj (List.mem_singleton.mp last)
        exact .inl (Option.some.inj (key.symm.trans configures.client_key))
  · intro key c_config found
    by_cases same : key = c_info.client_key
    · subst same
      rw [Finmap.lookup_insert] at found
      cases found
      exact ⟨rfl,children,client,[],rfl,configures,by simp⟩
    · rw [Finmap.lookup_insert_of_ne _ same] at found
      obtain ⟨keyed,last⟩ := loaded.entries key c_config found
      refine ⟨keyed,last_snoc last ?_⟩
      intro node new
      obtain ⟨_,rfl⟩ := Prod.mk.inj new
      rw [configures.client_key]
      exact fun equal => same (Option.some.inj equal).symm

/-- A child of another name changes nothing. -/
theorem loaded_other {children : List (Bytes × Ptree)} {child : Bytes × Ptree} {authorized_clients : Clients}
    (loaded : Loaded boost children authorized_clients) (named : child.1 ≠ lit "client") :
    Loaded boost (children ++ [child]) authorized_clients := by
  have other : ∀ client, (lit "client",client) ≠ child := fun client same => named (congrArg Prod.fst same).symm
  refine ⟨?_,?_⟩
  · intro key
    rw [loaded.keys]
    simp [other]
  · intro key c_config found
    obtain ⟨keyed,last⟩ := loaded.entries key c_config found
    exact ⟨keyed,last_snoc last fun client same => absurd same (other client)⟩

theorem loaded_step {children : List (Bytes × Ptree)} {child : Bytes × Ptree} {authorized_clients after : Clients}
    (loaded : Loaded boost children authorized_clients) (one : add_client boost authorized_clients child = some after) :
    Loaded boost (children ++ [child]) after := by
  obtain ⟨name,client⟩ := child
  unfold add_client at one
  split at one
  · rename_i named
    simp only at named
    subst named
    obtain ⟨c_info,read,one⟩ := Option.bind_eq_some_iff.mp one
    cases Option.some.inj one
    exact loaded_client loaded (client_config_of_iff.mp read)
  · rename_i named
    cases Option.some.inj one
    exact loaded_other loaded named

theorem loaded_of_foldlM {children : List (Bytes × Ptree)} {authorized_clients : Clients}
    (loads : children.foldlM (add_client boost) ∅ = some authorized_clients) : Loaded boost children authorized_clients := by
  induction children using List.reverseRecOn generalizing authorized_clients with
  | nil =>
    cases Option.some.inj loads
    exact loaded_nil
  | append_singleton children child ih =>
    rw [List.foldlM_append] at loads
    obtain ⟨before,earlier,one⟩ := Option.bind_eq_some_iff.mp loads
    exact loaded_step (ih earlier) (by simpa using one)

/-- The loop ends exactly when every client is read. -/
theorem foldlM_isSome_iff {children : List (Bytes × Ptree)} (authorized_clients : Clients) :
    (children.foldlM (add_client boost) authorized_clients).isSome ↔
      ∀ client, (lit "client",client) ∈ children → ∃ c_config, Configures boost client c_config := by
  induction children generalizing authorized_clients with
  | nil => simp
  | cons child children ih =>
    obtain ⟨name,client⟩ := child
    rw [List.foldlM_cons]
    by_cases named : name = lit "client"
    · subst named
      cases read : client_config_of boost client with
      | none =>
        have throws : add_client boost authorized_clients (lit "client",client) = none := by simp [add_client,read]
        have unread : ¬ ∃ c_config, Configures boost client c_config := by
          rintro ⟨c_config,configures⟩
          rw [client_config_of_iff.mpr configures] at read
          cases read
        rw [throws]
        refine ⟨nofun,fun all => absurd (all client (by simp)) unread⟩
      | some c_info =>
        have goesOn : add_client boost authorized_clients (lit "client",client) =
            some (authorized_clients.insert c_info.client_key c_info) := by simp [add_client,read]
        rw [goesOn]
        refine (ih _).trans ⟨?_,fun all other member => all other (by simp [member])⟩
        intro all other member
        rcases List.mem_cons.mp member with head | tail
        · obtain ⟨_,rfl⟩ := Prod.mk.inj head
          exact ⟨c_info,client_config_of_iff.mp read⟩
        · exact all other tail
    · have skips : add_client boost authorized_clients (name,client) = some authorized_clients := by
        simp [add_client,named]
      rw [skips]
      refine (ih _).trans ⟨?_,fun all other member => all other (by simp [member])⟩
      intro all other member
      rcases List.mem_cons.mp member with head | tail
      · exact absurd (Prod.mk.inj head).1.symm named
      · exact all other tail

/-- Children of other names have no part in the map. -/
theorem foldlM_filter_client (children : List (Bytes × Ptree)) (authorized_clients : Clients) :
    (children.filter fun child => child.1 = lit "client").foldlM (add_client boost) authorized_clients =
      children.foldlM (add_client boost) authorized_clients := by
  rw [List.foldlM_filter]
  congr 1
  funext before child
  by_cases named : child.1 = lit "client"
  · simp [named]
  · simp [add_client,named]

/-- The map of a file has every client of it, the last one of each key; a client that
    lacks a setting leaves no map at all; and two files with the same clients in the
    same order have the same map. -/
theorem loads_every_client {pt clients : Ptree} (found : get_child boost pt (lit "clients") = some clients) :
    ((∀ client, (lit "client",client) ∈ clients.children → ∃ c_config, Configures boost client c_config) →
      ∃ authorized_clients, get_authorized_clients_and_details boost pt = some authorized_clients ∧
        Loaded boost clients.children authorized_clients) ∧
    ((∃ client, (lit "client",client) ∈ clients.children ∧ ∀ c_config, ¬ Configures boost client c_config) →
      get_authorized_clients_and_details boost pt = none) ∧
    (∀ other others, get_child boost other (lit "clients") = some others →
      (others.children.filter fun child => child.1 = lit "client") =
        (clients.children.filter fun child => child.1 = lit "client") →
      get_authorized_clients_and_details boost other = get_authorized_clients_and_details boost pt) := by
  have loads : ∀ {pt clients}, get_child boost pt (lit "clients") = some clients →
      get_authorized_clients_and_details boost pt = clients.children.foldlM (add_client boost) ∅ := by
    intro pt clients found
    simp [get_authorized_clients_and_details,found]
  refine ⟨?_,?_,?_⟩
  · intro all
    obtain ⟨authorized_clients,ends⟩ := Option.isSome_iff_exists.mp ((foldlM_isSome_iff ∅).mpr all)
    exact ⟨authorized_clients,(loads found).trans ends,loaded_of_foldlM ends⟩
  · rintro ⟨client,member,unread⟩
    rw [loads found]
    by_contra ends
    obtain ⟨c_config,configures⟩ := (foldlM_isSome_iff ∅).mp (Option.isSome_iff_ne_none.mpr ends) client member
    exact unread c_config configures
  · intro other others there same
    rw [loads there,loads found,← foldlM_filter_client others.children,same,foldlM_filter_client]

private def clientNode (key email memory cpu processes : String) : Bytes × Ptree :=
  (lit "client",.node [] [(lit "key",leaf key),(lit "email",leaf email),
    (lit "alerts",.node [] [(lit "memory",leaf memory),(lit "cpu",leaf cpu),(lit "processes",leaf processes)])])

/-- The `clients` node of `test/resources/server_config.xml`. -/
def testNode : Ptree :=
  .node [] [clientNode "jack" "jack@jack.com" "24" "32" "40",clientNode "jill" "jill@jill.com" "18" "24" "30",
    clientNode "mary" "mary@mary.com" "27" "36" "45"]

def testTree : Ptree := .node [] [(lit "clients",testNode)]

/-- The same node with a client that has no address for mails behind it. -/
def brokenNode : Ptree := .node [] (testNode.children ++ [(lit "client",.node [] [(lit "key",leaf "joan")])])

/-- The file of the test is loaded, and with the broken client it is not. -/
theorem loads_every_client_test : (∃ authorized_clients,
    get_authorized_clients_and_details firstChild testTree = some authorized_clients ∧
    Loaded firstChild testNode.children authorized_clients) ∧
    get_authorized_clients_and_details firstChild (.node [] [(lit "clients",brokenNode)]) = none := by
  constructor
  · have found : get_child firstChild testTree (lit "clients") = some testNode := rfl
    apply (loads_every_client found).1
    intro client member
    simp only [testNode,Ptree.children,clientNode,List.mem_cons,Prod.mk.injEq,true_and,List.not_mem_nil,or_false] at member
    rcases member with rfl | rfl | rfl
    · exact ⟨_,client_config_of_iff.mp rfl⟩
    · exact ⟨_,client_config_of_iff.mp rfl⟩
    · exact ⟨_,client_config_of_iff.mp rfl⟩
  · have found : get_child firstChild (.node [] [(lit "clients",brokenNode)]) (lit "clients") = some brokenNode := rfl
    apply (loads_every_client found).2.1
    refine ⟨_,List.mem_append_right testNode.children List.mem_cons_self,?_⟩
    apply not_configures_of_missing (List.mem_cons_of_mem _ List.mem_cons_self)
    intro child member
    have name : lit "email" = lit "key" := congrArg Prod.fst (List.mem_singleton.mp member)
    exact absurd name (by decide)

example : get_authorized_clients_and_details firstChild testTree = some testClients := by decide

/-! ## Asking about clients -/

/-- A call of one of the two functions that look a key up in the map. -/
inductive Query where
  | is_client_authorized (client_key : Bytes)
  | should_send_email (client_key : Bytes) (c_detail : ClientDetail)

def answer (authorized_clients : Clients) : Query → Bool × Clients
  | .is_client_authorized client_key => (is_client_authorized authorized_clients client_key,authorized_clients)
  | .should_send_email client_key c_detail => should_send_email authorized_clients client_key c_detail

/-- The answers to the calls in turn, and the map after them. -/
def ask (authorized_clients : Clients) : List Query → List Bool × Clients
  | [] => ([],authorized_clients)
  | query :: rest =>
    let (result,authorized_clients) := answer authorized_clients query
    let (results,authorized_clients) := ask authorized_clients rest
    (result :: results,authorized_clients)

/-- A query asks the inserting lookup for the key. -/
def Subscripts (key : Bytes) : Query → Prop
  | .is_client_authorized _ => False
  | .should_send_email client_key _ => client_key = key

/-- The keys of the map are all that a query can add to. -/
theorem mem_answer {authorized_clients : Clients} {query : Query} {key : Bytes} :
    key ∈ (answer authorized_clients query).2 ↔ key ∈ authorized_clients ∨ Subscripts key query := by
  cases query with
  | is_client_authorized client_key => simp [answer,Subscripts]
  | should_send_email client_key c_detail =>
    cases found : authorized_clients.lookup client_key with
    | some c_config =>
      have member : client_key ∈ authorized_clients := Finmap.mem_of_lookup_eq_some found
      simp only [answer,should_send_email_of_lookup found,Subscripts]
      constructor
      · exact .inl
      · rintro (inside | rfl)
        · exact inside
        · exact member
    | none =>
      simp only [answer,should_send_email,subscript,found,Finmap.mem_insert,Subscripts]
      rw [or_comm,eq_comm]

/-- A query about a key of the map leaves it as it is. -/
theorem answer_map {authorized_clients : Clients} {query : Query}
    (known : ∀ key, Subscripts key query → key ∈ authorized_clients) : (answer authorized_clients query).2 = authorized_clients := by
  cases query with
  | is_client_authorized client_key => rfl
  | should_send_email client_key c_detail =>
    obtain ⟨c_config,found⟩ := Finmap.mem_iff.mp (known client_key rfl)
    simp [answer,should_send_email_of_lookup found]

theorem mem_ask {authorized_clients : Clients} {queries : List Query} {key : Bytes} :
    key ∈ (ask authorized_clients queries).2 ↔ key ∈ authorized_clients ∨ ∃ query ∈ queries, Subscripts key query := by
  induction queries generalizing authorized_clients with
  | nil => simp [ask]
  | cons query rest ih =>
    show key ∈ (ask (answer authorized_clients query).2 rest).2 ↔ _
    rw [ih,mem_answer,or_assoc]
    simp

/-- Every answer about a key's authorization is the one of the map before the
    calls, which is also the map after them. -/
def AsksOnly (authorized_clients : Clients) (queries : List Query) : Prop :=
  (∀ (i : Nat) (client_key : Bytes), queries[i]? = some (.is_client_authorized client_key) →
    (ask authorized_clients queries).1[i]? = some (is_client_authorized authorized_clients client_key)) ∧
  (ask authorized_clients queries).2 = authorized_clients

theorem asksOnly_of_known {authorized_clients : Clients} {queries : List Query}
    (known : ∀ query ∈ queries, ∀ key, Subscripts key query → key ∈ authorized_clients) :
    AsksOnly authorized_clients queries := by
  induction queries with
  | nil => exact ⟨nofun,rfl⟩
  | cons query rest ih =>
    have same := answer_map (known query (by simp))
    obtain ⟨answers,map⟩ := ih fun later member => known later (by simp [member])
    have head : ask authorized_clients (query :: rest) =
        ((answer authorized_clients query).1 :: (ask authorized_clients rest).1,(ask authorized_clients rest).2) := by
      simp only [ask,same]
    refine ⟨?_,by rw [head]; exact map⟩
    intro i client_key asked
    rw [head]
    cases i with
    | zero =>
      cases Option.some.inj asked
      rfl
    | succ i => exact answers i client_key asked

/-- Asking changes nothing exactly as long as the mail is asked about for keys of
    the map alone. -/
theorem asks_only_iff (authorized_clients : Clients) (queries : List Query) :
    AsksOnly authorized_clients queries ↔
      ∀ client_key c_detail, .should_send_email client_key c_detail ∈ queries → client_key ∈ authorized_clients := by
  constructor
  · rintro ⟨_,map⟩ client_key c_detail member
    rw [← map,mem_ask]
    exact .inr ⟨_,member,rfl⟩
  · intro known
    apply asksOnly_of_known
    intro query member key subscripts
    cases query with
    | is_client_authorized _ => cases subscripts
    | should_send_email client_key c_detail =>
      cases subscripts
      exact known _ c_detail member

/-- After the question about mail to a stranger, the stranger is authorized. -/
theorem stranger_authorized : ¬ AsksOnly testClients
    [.should_send_email (lit "mallory") ⟨lit "mallory",0,0,0,[]⟩,.is_client_authorized (lit "mallory")] := by
  rintro ⟨answers,_⟩
  have granted := answers 1 (lit "mallory") rfl
  revert granted
  decide

end SysInfo.AuthorizedClients
