import SysInfo.Server
import SysInfo.Statements

/-!
# Who may write to the store

The key is tested before the statement is printed, and the time of a report is
printed as it was received. As long as its quotes are doubled, the statement is
one INSERT of one row under the tested key.
-/

namespace SysInfo.Authorization
open SysInfo.Text SysInfo.Utils SysInfo.Transition SysInfo.Session SysInfo.SessionRuns SysInfo.Server
open SysInfo.Sql SysInfo.Statements

def chunkOf : ReadResult → Option Bytes
  | .data chunk => some chunk
  | .error => none

/-- The chunks received, by all sessions. -/
def chunks (inputs : List Input) : List Bytes := (handled inputs).filterMap fun read => chunkOf read.1

/-- The strings that `execute` was called with. -/
def submitted (s : Server.State) : List Bytes := s.log.filterMap fun entry => Event.statement entry.2

/-- The statement of a chunk, if it parses. -/
def statementOf (chunk : Bytes) : Option Bytes := (parse_to_client_detail chunk).map generate_insert_str_for

/-- An effect is a row of `CLIENT_INFO` under an authorized `CLIENT_KEY`. -/
def AddsAuthorized (authorized_clients : Clients) (effect : Effect) : Prop :=
  ∃ key values, effect = .row (.text key :: values) ∧ key ∈ authorized_clients

/-- Each submitted string is the statement of a chunk of its own, and executing
    it adds at most one row, under an authorized key, and does nothing else. -/
structure StoreIntact (database : Database client_info) (authorized_clients : Clients) (received : List Bytes)
    (s : Server.State) : Prop where
  own : ((submitted s).map some).Sublist (received.map statementOf)
  effects : ∀ insert_SQL ∈ submitted s, ∀ effects, database.Executes (cString insert_SQL) effects →
    effects.length ≤ 1 ∧ ∀ effect ∈ effects, AddsAuthorized authorized_clients effect

/-- The text fields of an authorized chunk do not end their literals, and its key
    reads as an authorized one. -/
def Plain (authorized_clients : Clients) (chunk : Bytes) : Prop :=
  ∀ c_detail, parse_to_client_detail chunk = some c_detail → c_detail.client_key ∈ authorized_clients →
    (∃ key ∈ authorized_clients, unquote c_detail.client_key = some key) ∧ ∃ time, unquote c_detail.str_dt_time = some time

/-- The statement of a report with such fields: one row, or nothing. -/
theorem effects_of_plain {database : Database client_info} {authorized_clients : Clients} {c_detail : ClientDetail}
    {key time : Bytes} (authorized : key ∈ authorized_clients) (keySafe : unquote c_detail.client_key = some key)
    (timeSafe : unquote c_detail.str_dt_time = some time) {effects : List Effect}
    (executed : database.Executes (cString (generate_insert_str_for c_detail)) effects) :
    effects.length ≤ 1 ∧ ∀ effect ∈ effects, AddsAuthorized authorized_clients effect := by
  have reads := readRows_statement keySafe timeSafe
  split at reads
  · rcases database.inserts_only reads executed with rfl | rfl
    · refine ⟨by simp,?_⟩
      intro effect member
      cases List.mem_singleton.mp member
      exact ⟨key,_,rfl,authorized⟩
    · simp
  · rw [database.refuses reads executed]
    simp

/-- What each read completion submits. -/
private theorem submitted_eq {authorized_clients : Clients} {inputs : List Input} {s : Server.State}
    (ran : run Server.step (Server.start authorized_clients) inputs = some s) :
    submitted s = (handled inputs).flatMap fun read =>
      if read.2.launch = .async then ((stored authorized_clients read.1).map generate_insert_str_for).toList else [] := by
  unfold submitted
  rw [Server.log_projection Event.statement rfl ran]
  simp only [respond_statement]

theorem submitted_own {authorized_clients : Clients} {inputs : List Input} {s : Server.State}
    (ran : run Server.step (Server.start authorized_clients) inputs = some s) :
    ((submitted s).map some).Sublist ((chunks inputs).map statementOf) := by
  rw [submitted_eq ran]
  unfold chunks
  generalize handled inputs = results
  induction results with
  | nil => exact .slnil
  | cons read results ih =>
    obtain ⟨result,task⟩ := read
    rw [List.flatMap_cons,List.map_append]
    cases result with
    | error =>
      rw [List.filterMap_cons_none rfl]
      simpa only [stored,Option.map_none,Option.toList_none,ite_self,List.map_nil,List.nil_append] using ih
    | data chunk =>
      simp only [List.filterMap_cons,chunkOf,List.map_cons]
      rw [← List.singleton_append]
      refine List.Sublist.append ?_ ih
      cases kept : stored authorized_clients (.data chunk) with
      | none => simp
      | some c_detail =>
        obtain ⟨_,same,parsed,_⟩ := stored_data kept
        cases same
        by_cases launched : task.launch = .async <;> simp [launched,statementOf,parsed]

theorem submitted_authorized {authorized_clients : Clients} {inputs : List Input} {s : Server.State}
    (ran : run Server.step (Server.start authorized_clients) inputs = some s) {insert_SQL : Bytes}
    (member : insert_SQL ∈ submitted s) : ∃ chunk ∈ chunks inputs, ∃ c_detail,
      parse_to_client_detail chunk = some c_detail ∧ c_detail.client_key ∈ authorized_clients ∧
      insert_SQL = generate_insert_str_for c_detail := by
  rw [submitted_eq ran] at member
  obtain ⟨read,inside,printed⟩ := List.mem_flatMap.mp member
  split at printed
  · obtain ⟨c_detail,kept,rfl⟩ := Option.map_eq_some_iff.mp (Option.mem_toList.mp printed)
    obtain ⟨chunk,same,parsed,authorized⟩ := stored_data kept
    exact ⟨chunk,List.mem_filterMap.mpr ⟨read,inside,by rw [same]; rfl⟩,c_detail,parsed,authorized,rfl⟩
  · cases printed

/-- In every run of the server, for any sessions in any order: as long as every
    authorized chunk was plain, the store only has rows of authorized clients from
    it, one for each chunk at most. -/
theorem store_intact_of_plain {database : Database client_info} {authorized_clients : Clients} {inputs : List Input}
    {s : Server.State} (ran : run Server.step (Server.start authorized_clients) inputs = some s)
    (plain : ∀ chunk ∈ chunks inputs, Plain authorized_clients chunk) :
    StoreIntact database authorized_clients (chunks inputs) s := by
  refine ⟨submitted_own ran,?_⟩
  intro insert_SQL member effects executed
  obtain ⟨chunk,inside,c_detail,parsed,authorized,rfl⟩ := submitted_authorized ran member
  obtain ⟨⟨key,granted,keySafe⟩,time,timeSafe⟩ := plain chunk inside c_detail parsed authorized
  exact effects_of_plain granted keySafe timeSafe executed

private theorem plain_of_quoteless {authorized_clients : Clients} {chunk : Bytes} {c_detail : ClientDetail}
    (parsed : parse_to_client_detail chunk = some c_detail) (key : quote ∉ c_detail.client_key)
    (time : quote ∉ c_detail.str_dt_time) : Plain authorized_clients chunk := by
  intro c_detail' parsed' authorized
  cases parsed.symm.trans parsed'
  exact ⟨⟨_,authorized,unquote_of_not_mem key⟩,_,unquote_of_not_mem time⟩

/-- Two sessions with a rejected chunk and two reports, one of them with a doubled
    quote, whose tasks run. -/
def reportsSubmitted : List Input :=
  [.accept true,.accept true,.complete 0 (.read (.data (lit "mallory|1|2|3|t")) ⟨.async,.returned⟩),
    .complete 1 (.read (.data testReport) ⟨.async,.returned⟩),.complete 1 (.write true),
    .complete 1 (.read (.data (lit "jill|1|2|3|nine o''clock")) ⟨.async,.returned⟩)]

/-- Both reports are submitted, and the store gets a row of the second one with a
    single quote. -/
theorem store_intact_report : ∃ s, run Server.step (Server.start testClients) reportsSubmitted = some s ∧
    submitted s = [generate_insert_str_for ⟨lit "jill",44,89,11,lit "Sat Nov 26 17:25:44 2016"⟩,
      generate_insert_str_for ⟨lit "jill",1,2,3,lit "nine o''clock"⟩] ∧
    (reading client_info).Executes (cString (generate_insert_str_for ⟨lit "jill",1,2,3,lit "nine o''clock"⟩))
      [.row [.text (lit "jill"),.number 1,.number 2,.number 3,.text (lit "nine o'clock")]] ∧
    StoreIntact (reading client_info) testClients (chunks reportsSubmitted) s := by
  have ends : (run Server.step (Server.start testClients) reportsSubmitted).map submitted =
      some [generate_insert_str_for ⟨lit "jill",44,89,11,lit "Sat Nov 26 17:25:44 2016"⟩,
        generate_insert_str_for ⟨lit "jill",1,2,3,lit "nine o''clock"⟩] := by decide +kernel
  have reads : readRows client_info (cString (generate_insert_str_for ⟨lit "jill",1,2,3,lit "nine o''clock"⟩)) =
      .ok [[.text (lit "jill"),.number 1,.number 2,.number 3,.text (lit "nine o'clock")]] := by decide +kernel
  obtain ⟨s,ran,statements⟩ := Option.map_eq_some_iff.mp ends
  refine ⟨s,ran,statements,by simp [reading,reads,Except.toOption],store_intact_of_plain ran ?_⟩
  have received : chunks reportsSubmitted = [lit "mallory|1|2|3|t",testReport,lit "jill|1|2|3|nine o''clock"] := rfl
  have rejected : Plain testClients (lit "mallory|1|2|3|t") :=
    plain_of_quoteless (by decide : _ = some ⟨lit "mallory",1,2,3,lit "t"⟩) (by decide) (by decide)
  have report : Plain testClients testReport :=
    plain_of_quoteless (by decide : _ = some ⟨lit "jill",44,89,11,lit "Sat Nov 26 17:25:44 2016"⟩) (by decide) (by decide)
  have doubled : Plain testClients (lit "jill|1|2|3|nine o''clock") := by
    have parsed : parse_to_client_detail (lit "jill|1|2|3|nine o''clock") = some ⟨lit "jill",1,2,3,lit "nine o''clock"⟩ := by decide
    intro c_detail parsed' authorized
    cases parsed.symm.trans parsed'
    exact ⟨⟨lit "jill",authorized,by decide⟩,lit "nine o'clock",by decide⟩
  rw [received]
  simp [rejected,report,doubled]

/-- A time that ends its literal and goes on with a second row. -/
def injection : Bytes := lit "jill|1|2|3|x'), ('mallory', 1, 2, 3, 'y"

/-- Every database that reads the literals and the rows of a statement adds a row
    for a client that is not authorized. -/
theorem injected_row : ¬ ∃ database : Database client_info, ∀ (inputs : List Input) (s : Server.State),
    run Server.step (Server.start testClients) inputs = some s → s.fault = false →
    StoreIntact database testClients (chunks inputs) s := by
  rintro ⟨database,always⟩
  have ends : (run Server.step (Server.start testClients)
      [.accept true,.complete 0 (.read (.data injection) ⟨.async,.returned⟩)]).map (fun s => (s.fault,submitted s)) =
      some (false,[generate_insert_str_for ⟨lit "jill",1,2,3,lit "x'), ('mallory', 1, 2, 3, 'y"⟩]) := by decide +kernel
  obtain ⟨s,ran,same⟩ := Option.map_eq_some_iff.mp ends
  simp only [Prod.mk.injEq] at same
  have kept := (always _ s ran same.1).effects
  have reads : readRows client_info
      (cString (generate_insert_str_for ⟨lit "jill",1,2,3,lit "x'), ('mallory', 1, 2, 3, 'y"⟩)) =
      .ok [[.text (lit "jill"),.number 1,.number 2,.number 3,.text (lit "x")],
        [.text (lit "mallory"),.number 1,.number 2,.number 3,.text (lit "y")]] := by decide +kernel
  obtain ⟨key,_,mallory,authorized⟩ := (kept _ (by rw [same.2]; exact List.mem_singleton.mpr rfl) _
    (database.inserts (by decide +kernel) reads)).2 _ (List.mem_cons_of_mem _ (List.mem_singleton.mpr rfl))
  have known : key = lit "mallory" := by cases mallory; rfl
  revert authorized
  rw [known]
  decide

end SysInfo.Authorization
