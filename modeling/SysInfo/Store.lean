import SysInfo.Journal
import SysInfo.ServiceRuns
import SysInfo.Statements

/-!
# The table behind the service

The calls of `execute` against a database. For reports whose text fields have no
quotes the table is a journal: each report offers its row once, in the order in
which the chunks were handled, and the return of `execute` acknowledges it.
-/

namespace SysInfo.Store
open SysInfo.Text SysInfo.Utils SysInfo.Transition SysInfo.Session SysInfo.SessionRuns SysInfo.Sql SysInfo.Statements
open SysInfo.Journal

/-- The row of a report, if the database takes it. -/
def row (c_detail : ClientDetail) : Option (List Value) :=
  if (0 ∉ c_detail.client_key ∧ 0 ∉ c_detail.str_dt_time) ∧ Fits c_detail then
    some (rowOf c_detail.client_key c_detail c_detail.str_dt_time)
  else none

/-- The database did all of a text. -/
structure Completed (text : Bytes) (effects : List Effect) : Prop where
  all : ∀ rows, readRows client_info text = .ok rows → effects = rows.map .row
  taken : readRows client_info text ≠ .error .refused

/-- What calls of `execute` did to a database, one after the other. Where the
    database fails, `exec` throws. -/
inductive Performs (database : Database client_info) : List (Bytes × Execution) → List Effect → Prop where
  | nil : Performs database [] []
  | snoc {calls effects query execution more} : Performs database calls effects →
      database.Executes (cString query) more → (execution = .returned → Completed (cString query) more) →
      Performs database (calls ++ [(query,execution)]) (effects ++ more)

theorem performs_nil {database : Database client_info} {effects : List Effect} (performed : Performs database [] effects) :
    effects = [] := by
  generalize none : ([] : List (Bytes × Execution)) = calls at performed
  cases performed with
  | nil => rfl
  | snoc _ _ _ => simp at none

theorem performs_snoc {database : Database client_info} {calls : List (Bytes × Execution)} {query : Bytes}
    {execution : Execution} {effects : List Effect} (performed : Performs database (calls ++ [(query,execution)]) effects) :
    ∃ before more, effects = before ++ more ∧ Performs database calls before ∧ database.Executes (cString query) more ∧
      (execution = .returned → Completed (cString query) more) := by
  generalize same : calls ++ [(query,execution)] = longer at performed
  cases performed with
  | nil => simp at same
  | snoc before executed completed =>
    obtain rfl := List.append_inj_left' same rfl
    cases List.append_inj_right' same rfl
    exact ⟨_,_,rfl,before,executed,completed⟩

/-! ## Reports and their rows -/

/-- A report and the outcome of its `execute`. -/
abbrev Reported := ClientDetail × Execution

def call (report : Reported) : Bytes × Execution := (generate_insert_str_for report.1,report.2)

/-- What the reports offer to the table. -/
def offers (reports : List Reported) : List (List Value × Bool) :=
  reports.filterMap fun report => (row report.1).map fun values => (values,decide (report.2 = .returned))

/-- Neither text field ends its literal. -/
def Quoteless (c_detail : ClientDetail) : Prop := quote ∉ c_detail.client_key ∧ quote ∉ c_detail.str_dt_time

instance (c_detail : ClientDetail) : Decidable (Quoteless c_detail) := inferInstanceAs (Decidable (_ ∧ _))

theorem readRows_quoteless {c_detail : ClientDetail} (quoteless : Quoteless c_detail) :
    readRows client_info (cString (generate_insert_str_for c_detail)) =
      match row c_detail with
      | some values => .ok [values]
      | none => .error .refused := by
  rw [readRows_statement (unquote_of_not_mem quoteless.1) (unquote_of_not_mem quoteless.2)]
  unfold row
  split <;> rfl

/-- One call: its row is kept, or it was not acknowledged. -/
theorem keeps_call {database : Database client_info} {reports : List Reported} {rows : List (List Value)} {report : Reported}
    {more : List Effect} (keeps : Keeps (offers reports) rows) (quoteless : Quoteless report.1)
    (executed : database.Executes (cString (call report).1) more)
    (completed : report.2 = .returned → Completed (cString (call report).1) more) :
    ∃ added, more = added.map .row ∧ Keeps (offers (reports ++ [report])) (rows ++ added) ∧
      (report.2 = .returned → (row report.1).isSome) := by
  have reads := readRows_quoteless quoteless
  obtain ⟨c_detail,execution⟩ := report
  cases offered : row c_detail with
  | none =>
    rw [offered] at reads
    have nothing := database.refuses reads executed
    refine ⟨[],nothing,?_,fun returned => absurd reads (completed returned).taken⟩
    simpa [offers,offered] using keeps
  | some values =>
    rw [offered] at reads
    have grown : offers (reports ++ [(c_detail,execution)]) = offers reports ++ [(values,decide (execution = .returned))] := by
      simp [offers,offered]
    rw [grown]
    cases execution with
    | returned => exact ⟨[values],(completed rfl).all _ reads,keeps.kept,fun _ => rfl⟩
    | threw =>
      rcases database.inserts_only reads executed with whole | nothing
      · exact ⟨[values],whole,keeps.kept,fun _ => rfl⟩
      · exact ⟨[],nothing,by simpa using keeps.lost,fun _ => rfl⟩

theorem keeps_calls {database : Database client_info} {reports : List Reported} {effects : List Effect}
    (quoteless : ∀ report ∈ reports, Quoteless report.1) (performed : Performs database (reports.map call) effects) :
    ∃ rows, effects = rows.map .row ∧ Keeps (offers reports) rows ∧
      ∀ report ∈ reports, report.2 = .returned → (row report.1).isSome := by
  induction reports using List.reverseRecOn generalizing effects with
  | nil => exact ⟨[],performs_nil performed,.empty,by simp⟩
  | append_singleton reports report ih =>
    rw [List.map_append] at performed
    obtain ⟨before,more,rfl,earlier,executed,completed⟩ := performs_snoc performed
    obtain ⟨rows,rfl,keeps,taken⟩ := ih (fun other member => quoteless other (by simp [member])) earlier
    obtain ⟨added,rfl,keeps',taken'⟩ := keeps_call keeps (quoteless report (by simp)) executed completed
    refine ⟨rows ++ added,by simp,keeps',?_⟩
    intro other member
    rcases List.mem_append.mp member with inside | last
    · exact taken other inside
    · rw [List.mem_singleton.mp last]
      exact taken'

/-- The rows of a table against the reports. -/
structure Holds (reports : List Reported) (rows : List (List Value)) : Prop where
  /-- Every row is that of a report, each report has one at most, in their order. -/
  own : rows.Sublist (reports.filterMap fun report => row report.1)
  /-- No report is missing whose `execute` returned. -/
  kept : ((reports.filter fun report => report.2 = .returned).filterMap fun report => row report.1).Sublist rows
  /-- `execute` does not return for a report that the table does not take. -/
  taken : ∀ report ∈ reports, report.2 = .returned → (row report.1).isSome
  exact : (∀ report ∈ reports, report.2 = .returned) → rows.map some = reports.map fun report => row report.1

private theorem offers_fst (reports : List Reported) :
    (offers reports).map Prod.fst = reports.filterMap fun report => row report.1 := by
  unfold offers
  rw [List.map_filterMap]
  congr 1
  funext report
  cases row report.1 <;> rfl

private theorem offers_acknowledged (reports : List Reported) : acknowledged (offers reports) =
    (reports.filter fun report => report.2 = .returned).filterMap fun report => row report.1 := by
  induction reports with
  | nil => rfl
  | cons report reports ih =>
    obtain ⟨c_detail,execution⟩ := report
    unfold acknowledged offers at ih ⊢
    cases offered : row c_detail <;> cases execution <;> simp [offered,ih]

private theorem map_some_filterMap {Item Shown : Type} {shows : Item → Option Shown} {items : List Item}
    (all : ∀ item ∈ items, (shows item).isSome) : (items.filterMap shows).map some = items.map shows := by
  induction items with
  | nil => rfl
  | cons item items ih =>
    obtain ⟨shown,same⟩ := Option.isSome_iff_exists.mp (all item (by simp))
    simp [same,ih fun other member => all other (by simp [member])]

theorem holds_of_keeps {reports : List Reported} {rows : List (List Value)} (keeps : Keeps (offers reports) rows)
    (taken : ∀ report ∈ reports, report.2 = .returned → (row report.1).isSome) : Holds reports rows := by
  refine ⟨?_,?_,taken,?_⟩
  · rw [← offers_fst]
    exact keeps.sublist_offers
  · rw [← offers_acknowledged]
    exact keeps.acknowledged_sublist
  · intro all
    have every : ∀ offer ∈ offers reports, offer.2 = true := by
      intro offer member
      obtain ⟨report,inside,same⟩ := List.mem_filterMap.mp member
      obtain ⟨values,_,rfl⟩ := Option.map_eq_some_iff.mp same
      exact decide_eq_true (all report inside)
    rw [keeps.eq_of_acknowledged every,offers_fst]
    exact map_some_filterMap fun report member => taken report member (all report member)

/-! ## The reports of a run -/

/-- The reports of the authorized chunks whose handlers began, in order. -/
def details (authorized_clients : Clients) (labels : List Service.Label) : List ClientDetail :=
  (Service.dispatched labels).filterMap (stored authorized_clients)

/-- The reports whose tasks are over. -/
def reported (details : List ClientDetail) (tasks : List Service.Job) : List Reported :=
  (details.zip tasks).filterMap fun entry => (Service.Job.executed entry.2).map fun done => (entry.1,done.2)

theorem reported_cons (c_detail : ClientDetail) (details : List ClientDetail) (job : Service.Job) (tasks : List Service.Job) :
    reported (c_detail :: details) (job :: tasks) =
      ((Service.Job.executed job).map fun done => (c_detail,done.2)).toList ++ reported details tasks := by
  unfold reported
  cases executed : Service.Job.executed job <;> simp [executed]

theorem executed_insert_SQL {job : Service.Job} {done : Bytes × Execution} (executed : Service.Job.executed job = some done) :
    done.1 = job.insert_SQL := by
  unfold Service.Job.executed at executed
  split at executed
  · cases executed
    rfl
  · cases executed

/-- The reports are those of the calls. -/
theorem calls_reported : ∀ {details : List ClientDetail} {tasks : List Service.Job},
    tasks.map Service.Job.insert_SQL = details.map generate_insert_str_for →
    (reported details tasks).map call = tasks.filterMap Service.Job.executed
  | [], [], _ => rfl
  | [], _ :: _, same => by cases same
  | _ :: _, [], same => by cases same
  | c_detail :: details, job :: tasks, same => by
    simp only [List.map_cons,List.cons.injEq] at same
    rw [reported_cons,List.map_append,calls_reported same.2]
    cases executed : Service.Job.executed job with
    | none => simp [executed]
    | some done =>
      have text := (executed_insert_SQL executed).trans same.1
      simp [executed,call,← text]

theorem reported_sublist : ∀ (details : List ClientDetail) (tasks : List Service.Job),
    ((reported details tasks).map Prod.fst).Sublist details
  | [], _ => .slnil
  | _ :: _, [] => by simp [reported]
  | c_detail :: details, job :: tasks => by
    have rest := reported_sublist details tasks
    rw [reported_cons,List.map_append]
    cases Service.Job.executed job with
    | none => exact rest.cons c_detail
    | some done => exact rest.cons_cons c_detail

theorem reported_all : ∀ {details : List ClientDetail} {tasks : List Service.Job}, tasks.length = details.length →
    (∀ job ∈ tasks, job.finished) → (reported details tasks).map Prod.fst = details
  | [], _, _, _ => rfl
  | _ :: _, [], same, _ => by cases same
  | c_detail :: details, job :: tasks, same, finished => by
    obtain ⟨execution,done⟩ := finished job (by simp)
    have executed : Service.Job.executed job = some (job.insert_SQL,execution) := by simp [Service.Job.executed,done]
    rw [reported_cons,List.map_append,executed,
      reported_all (by simpa using same) fun other member => finished other (by simp [member])]
    rfl

/-- Over every run of the service and any database, as long as no authorized chunk
    has a quote in a text field: what the calls of `execute` did are rows of the
    reports of these chunks, and the table holds them as it should. Once no handler
    waits, every authorized chunk has been reported. -/
theorem table_holds_reports {database : Database client_info} {authorized_clients : Clients} {labels : List Service.Label}
    {s : Service.State} {effects : List Effect} (ran : run Service.step (Service.init authorized_clients) labels = some s)
    (quoteless : ∀ c_detail ∈ details authorized_clients labels, Quoteless c_detail)
    (performed : Performs database (s.tasks.filterMap Service.Job.executed) effects) :
    ∃ rows, effects = rows.map .row ∧ Holds (reported (details authorized_clients labels) s.tasks) rows ∧
      ((reported (details authorized_clients labels) s.tasks).map Prod.fst).Sublist (details authorized_clients labels) ∧
      ((∀ ready task, s.thread ≠ .waiting ready task) →
        (reported (details authorized_clients labels) s.tasks).map Prod.fst = details authorized_clients labels) := by
  have tasks : s.tasks.map Service.Job.insert_SQL = (details authorized_clients labels).map generate_insert_str_for := by
    rw [(Service.run_tallies ran).tasks,Service.calledFor,details,List.map_filterMap]
  have own := reported_sublist (details authorized_clients labels) s.tasks
  rw [← calls_reported tasks] at performed
  obtain ⟨rows,same,keeps,taken⟩ := keeps_calls
    (fun report member => quoteless report.1 (own.subset (List.mem_map_of_mem member))) performed
  refine ⟨rows,same,holds_of_keeps keeps taken,own,?_⟩
  intro idle
  exact reported_all (by simpa using congrArg List.length tasks) (Service.phase_idle (Service.run_ordered ran).phase idle).1

/-- The report of the test, executed by a database that reads its statement. -/
def testDetail : ClientDetail := ⟨lit "jill",44,89,11,lit "Sat Nov 26 17:25:44 2016"⟩
def testRow : List Value := [.text (lit "jill"),.number 44,.number 89,.number 11,.text (lit "Sat Nov 26 17:25:44 2016")]
def reportStored : List Service.Label :=
  [.start,.start_server,.dispatch (.accept true),.dispatch (.read 0 (.data testReport)),.execute_begins 0,
    .execute_ends 0 .returned,.resume]

theorem performs_testDetail : Performs (reading client_info) [(generate_insert_str_for testDetail,.returned)] [.row testRow] := by
  have reads : readRows client_info (cString (generate_insert_str_for testDetail)) = .ok [testRow] := by decide +kernel
  have executed : (reading client_info).Executes (cString (generate_insert_str_for testDetail)) [.row testRow] := by
    simp [reading,reads,Except.toOption]
  have completed : Completed (cString (generate_insert_str_for testDetail)) [.row testRow] := by
    refine ⟨?_,by simp [reads]⟩
    intro rows same
    rw [reads] at same
    cases same
    rfl
  exact (@Performs.nil (reading client_info)).snoc executed fun _ => completed

theorem row_injective {first second : List (List Value)} (same : first.map Effect.row = second.map Effect.row) : first = second :=
  List.map_injective_iff.mpr (fun _ _ equal => Effect.row.inj equal) same

theorem table_holds_report : ∃ s, run Service.step (Service.init testClients) reportStored = some s ∧
    Performs (reading client_info) (s.tasks.filterMap Service.Job.executed) [.row testRow] ∧
    Holds (reported [testDetail] s.tasks) [testRow] := by
  have ends : (run Service.step (Service.init testClients) reportStored).map
      (fun s => s.tasks.filterMap Service.Job.executed) = some [(generate_insert_str_for testDetail,.returned)] := by
    decide +kernel
  have received : details testClients reportStored = [testDetail] := by decide +kernel
  obtain ⟨s,ran,calls⟩ := Option.map_eq_some_iff.mp ends
  have performed := performs_testDetail
  rw [← calls] at performed
  refine ⟨s,ran,performed,?_⟩
  obtain ⟨rows,same,holds,_⟩ := table_holds_reports ran (by rw [received]; decide) performed
  have only : [testRow] = rows := row_injective same
  rw [← received,only]
  exact holds

end SysInfo.Store
