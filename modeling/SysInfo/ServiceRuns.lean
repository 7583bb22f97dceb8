import Mathlib.Algebra.GroupWithZero.Nat
import SysInfo.Ranking
import SysInfo.Service

/-!
# Tasks and handlers over a run of the service

Which handler a task belongs to, how the tasks account for the chunks that were
handled and for what was executed, and how the process comes to its end once
`main` stopped the service.
-/

namespace SysInfo.Service
open SysInfo.Text SysInfo.Utils SysInfo.Transition SysInfo.Session SysInfo.SessionRuns

/-- What a handler that the thread begins can do, and what it was given. -/
theorem dispatch_cases {s t : State} {ready : Ready} (one : step s (.dispatch ready) = some t) :
    s.thread = .polling ∧ s.stop = false ∧ ∃ server, Server.step s.server (ready.input .returned) = some server ∧
      ((ready.insert_SQL s.server.authorized_clients = none ∧ t = { s with server }) ∨
        ∃ insert_SQL, ready.insert_SQL s.server.authorized_clients = some insert_SQL ∧
          t = { s with thread := .waiting ready s.tasks.length, tasks := s.tasks ++ [⟨insert_SQL,.pending⟩] }) := by
  simp only [step,dispatch] at one
  split at one
  · rename_i guard
    obtain ⟨server,handled,rfl⟩ := Option.map_eq_some_iff.mp one
    refine ⟨guard.1,guard.2.1,server,handled,?_⟩
    cases statement : ready.insert_SQL s.server.authorized_clients with
    | none => exact .inl ⟨rfl,rfl⟩
    | some insert_SQL => exact .inr ⟨insert_SQL,rfl,rfl⟩
  · cases one

/-! ## The handler of a task -/

/-- No session has more than one operation in flight. -/
def OneEach (server : Server.State) : Prop := ∀ outstanding ∈ server.sessions, outstanding.length ≤ 1

theorem oneEach_step {s t : Server.State} {input : Server.Input} (each : OneEach s) (one : Server.step s input = some t) :
    OneEach t := by
  rcases Server.step_cases one with ⟨_,rfl⟩ | ⟨_,rfl⟩ | ⟨session,completion,outstanding,u,_,found,stepped,rfl⟩
  · intro inFlight member
    rcases List.mem_append.mp member with earlier | new
    · exact each inFlight earlier
    · rw [List.mem_singleton.mp new]
      exact le_rfl
  · exact each
  · have few := each outstanding (List.mem_of_getElem? found)
    intro inFlight member
    rcases List.mem_or_eq_of_mem_set member with earlier | rfl
    · exact each inFlight earlier
    · rcases (Session.step_cases stepped).2 with ⟨_,_,_,_,present,_,rfl⟩ | ⟨_,_,_,present,_,rfl⟩ | ⟨ok,_,present,rfl⟩
      · simp [List.length_erase_of_mem present]
        omega
      · simp [List.length_erase_of_mem present]
        omega
      · cases ok <;> simp [List.length_erase_of_mem present] <;> omega

/-- The handler of a read of an authorized chunk, whose session has nothing else in
    flight: its object is alive as long as the handler is. -/
inductive Handles (server : Server.State) : Ready → Bytes → Prop where
  | read {session chunk c_detail} : server.fault = false → server.sessions[session]? = some [.read] →
      parse_to_client_detail chunk = some c_detail → c_detail.client_key ∈ server.authorized_clients →
      Handles server (.read session (.data chunk)) (generate_insert_str_for c_detail)

/-- A handler that starts a task. -/
theorem handles_of_dispatch {server after : Server.State} {ready : Ready} {insert_SQL : Bytes} (each : OneEach server)
    (enabled : Server.step server (ready.input .returned) = some after)
    (statement : ready.insert_SQL server.authorized_clients = some insert_SQL) : Handles server ready insert_SQL := by
  cases ready with
  | accept ok => cases statement
  | write session ok => cases statement
  | read session result =>
    obtain ⟨c_detail,kept,rfl⟩ := Option.map_eq_some_iff.mp statement
    obtain ⟨chunk,rfl,parsed,authorized⟩ := stored_data kept
    rcases Server.step_cases enabled with ⟨same,_⟩ | ⟨same,_⟩ | ⟨i,completion,outstanding,u,same,found,stepped,_⟩
    · cases same
    · cases same
    · cases same
      have few := each outstanding (List.mem_of_getElem? found)
      obtain ⟨alive,cases⟩ := Session.step_cases stepped
      have reads : .read ∈ outstanding := by
        rcases cases with ⟨_,_,_,_,present,_⟩ | ⟨_,_,_,present,_⟩ | ⟨_,same,_⟩
        · exact present
        · exact present
        · cases same
      obtain ⟨op,rfl⟩ := List.length_eq_one_iff.mp (Nat.le_antisymm few (List.length_pos_of_mem reads))
      cases List.mem_singleton.mp reads
      exact .read alive found parsed authorized

/-- The rest of such a handler runs whatever becomes of its task. -/
theorem Handles.enabled {server : Server.State} {ready : Ready} {insert_SQL : Bytes}
    (handles : Handles server ready insert_SQL) (execution : Execution) :
    ∃ after, Server.step server (ready.input execution) = some after := by
  cases handles with
  | @read session chunk c_detail alive found _ _ =>
    obtain ⟨u,stepped⟩ := @Session.step_enabled ⟨server.authorized_clients,[.read],[],server.fault⟩
      (.read (.data chunk) ⟨.async,execution⟩) alive (List.mem_singleton.mpr rfl)
    exact ⟨_,by simp only [Ready.input,Server.step,found,stepped]; rfl⟩

/-- The handler that the thread is in is that of the last task. -/
def Waits (s : State) : Prop := ∀ ready task, s.thread = .waiting ready task →
  ∃ jobs job, s.tasks = jobs ++ [job] ∧ task = jobs.length ∧ Handles s.server ready job.insert_SQL

/-- What holds of the thread and of `main` besides the order of the tasks. -/
structure Lives (s : State) : Prop where
  each : OneEach s.server
  waits : Waits s
  running : s.main ≠ .constructed → s.thread ≠ .absent
  stopped : s.stop = true → s.main = .stopped ∨ s.main = .joined ∨ s.main = .deleted

private theorem waits_of_set {s : State} {task : Nat} {insert_SQL : Bytes} {before after : Progress}
    (waits : Waits s) (found : s.tasks[task]? = some ⟨insert_SQL,before⟩) {completed : List Nat} :
    Waits { s with tasks := s.tasks.set task ⟨insert_SQL,after⟩, completed } := by
  intro ready last waiting
  obtain ⟨jobs,job,tasks,rfl,handles⟩ := waits ready last waiting
  simp only [tasks] at found ⊢
  rcases Nat.lt_or_ge task jobs.length with earlier | later
  · exact ⟨jobs.set task ⟨insert_SQL,after⟩,job,List.set_append_left _ _ earlier,by simp,handles⟩
  · have atEnd : task = jobs.length := by
      have inside := (List.getElem?_eq_some_iff.mp found).1
      simp at inside
      omega
    subst atEnd
    have same : job = ⟨insert_SQL,before⟩ := by simpa using found
    subst same
    exact ⟨jobs,⟨insert_SQL,after⟩,by simp,rfl,handles⟩

theorem lives_step {s t : State} {label : Label} (lives : Lives s) (one : step s label = some t) : Lives t := by
  obtain ⟨each,waits,running,stopped⟩ := lives
  cases steps_of_step one with
  | start early =>
    refine ⟨each,nofun,nofun,fun stop => ?_⟩
    rcases stopped stop with late | late | late <;> rw [early] at late <;> cases late
  | start_server early =>
    refine ⟨each,waits,fun _ => running (by rw [early]; nofun),fun stop => ?_⟩
    rcases stopped stop with late | late | late <;> rw [early] at late <;> cases late
  | stop serving => exact ⟨each,waits,fun _ => running (by rw [serving]; nofun),fun _ => .inl rfl⟩
  | finish_work_before_quiting early _ => exact ⟨each,waits,fun _ => running (by rw [early]; nofun),fun _ => .inr (.inl rfl)⟩
  | delete_db_handle early => exact ⟨each,waits,fun _ => running (by rw [early]; nofun),fun _ => .inr (.inr rfl)⟩
  | handled polling _ stepped =>
    refine ⟨oneEach_step each stepped,?_,running,stopped⟩
    intro ready task waiting
    rw [show s.thread = .waiting ready task from waiting] at polling
    cases polling
  | @spawned ready insert_SQL polling _ statement =>
    obtain ⟨_,_,server,enabled,_⟩ := dispatch_cases one
    refine ⟨each,?_,nofun,stopped⟩
    intro other task waiting
    cases waiting
    exact ⟨s.tasks,_,rfl,rfl,handles_of_dispatch each enabled statement⟩
  | resumed _ _ stepped => exact ⟨oneEach_step each stepped,nofun,nofun,stopped⟩
  | run_returns _ _ => exact ⟨each,nofun,nofun,stopped⟩
  | execute_begins found => exact ⟨each,waits_of_set waits found,running,stopped⟩
  | execute_ends found => exact ⟨each,waits_of_set waits found,running,stopped⟩

theorem run_lives {authorized_clients : Clients} {labels : List Label} {s : State}
    (ran : run step (init authorized_clients) labels = some s) : Lives s :=
  run_invariant Lives (fun _ _ _ lives one => lives_step lives one) ran
    ⟨by simp [OneEach,init,Server.start],nofun,fun other => absurd rfl other,nofun⟩

/-- The map of the server is that of the program. -/
theorem run_clients {authorized_clients : Clients} {labels : List Label} {s : State}
    (ran : run step (init authorized_clients) labels = some s) : s.server.authorized_clients = authorized_clients := by
  obtain ⟨inputs,reached⟩ := service_refines_server ran
  exact Server.run_clients reached

/-- A task that is not over is the last one. The thread is in the read handler that
    started it, for an authorized chunk whose statement it is, and the session of
    that handler has nothing but this read in flight: a task never outlives the
    handler, nor the session object that it uses. -/
theorem task_in_handler {authorized_clients : Clients} {labels : List Label} {s : State}
    (ran : run step (init authorized_clients) labels = some s) {task : Nat} {job : Job}
    (found : s.tasks[task]? = some job) (unfinished : ¬ job.finished) :
    task + 1 = s.tasks.length ∧ ∃ session chunk c_detail, s.thread = .waiting (.read session (.data chunk)) task ∧
      parse_to_client_detail chunk = some c_detail ∧ c_detail.client_key ∈ authorized_clients ∧
      job.insert_SQL = generate_insert_str_for c_detail ∧ s.server.sessions[session]? = some [.read] := by
  obtain ⟨jobs,ready,tasks,rfl,_,waiting,_⟩ := phase_unfinished (run_ordered ran).phase found unfinished
  obtain ⟨jobs',job',tasks',sameLength,handles⟩ := (run_lives ran).waits ready jobs.length waiting
  have same : jobs' = jobs ∧ job' = job := by
    have split := tasks'.symm.trans tasks
    exact ⟨List.append_inj_left' split rfl,(List.cons.inj (List.append_inj_right' split rfl)).1⟩
  obtain ⟨rfl,rfl⟩ := same
  refine ⟨by simp [tasks],?_⟩
  generalize statement : job'.insert_SQL = insert_SQL at handles
  cases handles with
  | read alive inFlight parsed authorized =>
    rw [run_clients ran] at authorized
    exact ⟨_,_,_,waiting,parsed,authorized,rfl,inFlight⟩

/-- The task of a report while `main` stops the service. -/
theorem task_in_handler_report : ∃ s, run step (init testClients)
    [.start,.start_server,.dispatch (.accept true),.dispatch (.read 0 (.data testReport)),.execute_begins 0,.stop] = some s ∧
    ∃ session chunk, s.thread = .waiting (.read session (.data chunk)) 0 ∧ s.server.sessions[session]? = some [.read] := by
  have ends : (run step (init testClients)
      [.start,.start_server,.dispatch (.accept true),.dispatch (.read 0 (.data testReport)),.execute_begins 0,.stop]).map
      State.tasks = some [⟨generate_insert_str_for ⟨lit "jill",44,89,11,lit "Sat Nov 26 17:25:44 2016"⟩,.executing⟩] := by
    decide +kernel
  obtain ⟨s,ran,tasks⟩ := Option.map_eq_some_iff.mp ends
  obtain ⟨_,session,chunk,_,waiting,_,_,_,inFlight⟩ :=
    @task_in_handler _ _ _ ran 0 _ (by rw [tasks]; rfl) (by rintro ⟨_,impossible⟩; cases impossible)
  exact ⟨s,ran,session,chunk,waiting,inFlight⟩

/-! ## A task while the service runs -/

/-- `main` waits for the thread only after it stopped the service. -/
theorem run_stopped {authorized_clients : Clients} {labels : List Label} {s : State}
    (ran : run step (init authorized_clients) labels = some s) :
    s.main = .stopped ∨ s.main = .joined ∨ s.main = .deleted → s.stop = true := by
  refine run_invariant (fun s => s.main = .stopped ∨ s.main = .joined ∨ s.main = .deleted → s.stop = true) ?_ ran
    (by simp [init])
  intro s label t before one
  cases steps_of_step one with
  | start _ => simp
  | start_server _ => simp
  | stop _ => exact fun _ => rfl
  | finish_work_before_quiting early _ => exact fun _ => before (.inl early)
  | delete_db_handle early => exact fun _ => before (.inr (.inl early))
  | handled _ _ _ => exact before
  | spawned _ _ _ => exact before
  | resumed _ _ _ => exact before
  | run_returns _ _ => exact before
  | execute_begins _ => exact before
  | execute_ends _ => exact before

/-- A step with which a task or its handler comes to its end. -/
def Label.finishes : Label → Bool
  | .execute_begins _ => true
  | .execute_ends _ _ => true
  | .resume => true
  | _ => false

/-- The results of the reads whose handlers began, in order. -/
def dispatched (labels : List Label) : List ReadResult :=
  labels.filterMap fun
    | .dispatch (.read _ result) => some result
    | _ => none

/-- The tasks whose `execute` began, in order. -/
def begun (labels : List Label) : List Nat :=
  labels.filterMap fun
    | .execute_begins task => some task
    | _ => none

/-- The statements that the results call for. -/
def calledFor (authorized_clients : Clients) (results : List ReadResult) : List Bytes :=
  results.filterMap fun result => (stored authorized_clients result).map generate_insert_str_for

@[simp] theorem dispatched_append (first second : List Label) :
    dispatched (first ++ second) = dispatched first ++ dispatched second := List.filterMap_append
@[simp] theorem begun_append (first second : List Label) : begun (first ++ second) = begun first ++ begun second :=
  List.filterMap_append
@[simp] theorem calledFor_append (authorized_clients : Clients) (first second : List ReadResult) :
    calledFor authorized_clients (first ++ second) = calledFor authorized_clients first ++ calledFor authorized_clients second :=
  List.filterMap_append

theorem calledFor_dispatch (authorized_clients : Clients) (ready : Ready) :
    calledFor authorized_clients (dispatched [.dispatch ready]) = (ready.insert_SQL authorized_clients).toList := by
  cases ready with
  | accept ok => rfl
  | write session ok => rfl
  | read session result =>
    cases called : stored authorized_clients result <;> simp [dispatched,calledFor,Ready.insert_SQL,called]

def Job.executed (job : Job) : Option (Bytes × Execution) :=
  match job.progress with
  | .done execution => some (job.insert_SQL,execution)
  | _ => none

/-- What the handlers that returned have executed. -/
def executions (server : Server.State) : List (Bytes × Execution) :=
  server.log.filterMap fun entry => Event.executed entry.2

/-- The tasks whose handlers returned. -/
def returned (s : State) : List Job :=
  match s.thread with
  | .waiting _ _ => s.tasks.dropLast
  | _ => s.tasks

/-- What a completion has executed. -/
def executedBy (authorized_clients : Clients) : Server.Input → List (Bytes × Execution)
  | .complete _ (.read result task) =>
    if task.launch = .async then
      ((stored authorized_clients result).map fun c_detail => (generate_insert_str_for c_detail,task.execution)).toList
    else []
  | _ => []

theorem executions_step {s t : Server.State} {input : Server.Input} (one : Server.step s input = some t) :
    executions t = executions s ++ executedBy s.authorized_clients input := by
  have tagged : ∀ (session : Nat) (events : List Event),
      (events.map fun event => (session,event)).filterMap (fun entry => Event.executed entry.2) =
        events.filterMap Event.executed := by
    intro session events
    rw [List.filterMap_map]
    rfl
  rcases Server.step_cases one with ⟨rfl,rfl⟩ | ⟨rfl,rfl⟩ | ⟨session,completion,outstanding,u,rfl,_,stepped,rfl⟩
  · simp [executions,executedBy,Event.executed]
  · simp [executedBy]
  · unfold executions
    rw [List.filterMap_append,tagged]
    rcases (Session.step_cases stepped).2 with ⟨result,task,events,rfl,_,responds,rfl⟩ | ⟨result,task,rfl,_,responds,rfl⟩ |
      ⟨ok,rfl,_,rfl⟩
    · have executed := respond_executed s.authorized_clients result task
      rw [responds] at executed
      simpa [executedBy] using executed
    · have executed := respond_executed s.authorized_clients result task
      rw [responds] at executed
      simpa [executedBy] using executed
    · cases ok <;> simp [executedBy,on_write,Event.executed]

/-- A handler without a task executes nothing. -/
theorem executedBy_of_none {authorized_clients : Clients} {ready : Ready} {execution : Execution}
    (none : ready.insert_SQL authorized_clients = none) : executedBy authorized_clients (ready.input execution) = [] := by
  cases ready with
  | accept ok => rfl
  | write session ok => rfl
  | read session result =>
    have nothing : stored authorized_clients result = Option.none := by simpa [Ready.insert_SQL] using none
    simp [Ready.input,executedBy,nothing]

theorem executedBy_of_handles {server : Server.State} {ready : Ready} {insert_SQL : Bytes}
    (handles : Handles server ready insert_SQL) (execution : Execution) :
    executedBy server.authorized_clients (ready.input execution) = [(insert_SQL,execution)] := by
  cases handles with
  | read _ _ parsed authorized => simp [Ready.input,executedBy,stored,parsed,authorized]

/-- Each task was called for by an authorized chunk, begins and ends once, in the
    order of the chunks, and is logged when its handler returns. -/
structure Tallies (authorized_clients : Clients) (labels : List Label) (s : State) : Prop where
  tasks : s.tasks.map Job.insert_SQL = calledFor authorized_clients (dispatched labels)
  begun : begun labels = List.range (s.tasks.countP fun job => job.progress ≠ .pending)
  logged : executions s.server = (returned s).filterMap Job.executed

private theorem returned_of_idle {s : State} (idle : ∀ ready task, s.thread ≠ .waiting ready task) : returned s = s.tasks := by
  unfold returned
  split
  · rename_i ready task waiting
    exact absurd waiting (idle ready task)
  · rfl

theorem returned_of_waiting {s : State} {ready : Ready} {task : Nat} (waiting : s.thread = .waiting ready task) :
    returned s = s.tasks.dropLast := by
  simp [returned,waiting]

private theorem countP_begun {jobs : List Job} (finished : ∀ job ∈ jobs, job.finished) :
    (jobs.countP fun job => job.progress ≠ .pending) = jobs.length := by
  rw [List.countP_eq_length]
  intro job member
  obtain ⟨execution,done⟩ := finished job member
  simp [done]

theorem Tallies.idle {authorized_clients : Clients} {labels : List Label} {s : State}
    (tallies : Tallies authorized_clients labels s) (idle : ∀ ready task, s.thread ≠ .waiting ready task) :
    executions s.server = s.tasks.filterMap Job.executed := by
  rw [tallies.logged,returned_of_idle idle]

theorem tallies_dispatch {authorized_clients : Clients} {labels : List Label} {s t : State} {ready : Ready}
    (clients : s.server.authorized_clients = authorized_clients) (tallies : Tallies authorized_clients labels s)
    (one : step s (.dispatch ready) = some t) : Tallies authorized_clients (labels ++ [.dispatch ready]) t := by
  obtain ⟨polling,_,server,stepped,cases⟩ := dispatch_cases one
  have idle := tallies.idle (by rw [polling]; nofun)
  rw [clients] at cases
  rcases cases with ⟨none,rfl⟩ | ⟨insert_SQL,called,rfl⟩
  · refine ⟨?_,?_,?_⟩
    · rw [dispatched_append,calledFor_append,calledFor_dispatch,none]
      simpa using tallies.tasks
    · simpa [begun] using tallies.begun
    · show executions server = (returned { s with server }).filterMap Job.executed
      rw [executions_step stepped,executedBy_of_none (clients ▸ none),List.append_nil,idle,returned_of_idle (by simp [polling])]
  · refine ⟨?_,?_,?_⟩
    · rw [dispatched_append,calledFor_append,calledFor_dispatch,called,← tallies.tasks]
      simp
    · simpa [begun] using tallies.begun
    · rw [returned_of_waiting rfl,List.dropLast_concat]
      exact idle

/-- The last task moves on while its handler waits. -/
theorem tallies_last {authorized_clients : Clients} {labels : List Label} {s : State} {label : Label} {jobs : List Job}
    {job other : Job} {ready : Ready} {completed : List Nat} (tallies : Tallies authorized_clients labels s)
    (split : s.tasks = jobs ++ [job]) (waiting : s.thread = .waiting ready jobs.length)
    (same : other.insert_SQL = job.insert_SQL) (none : dispatched [label] = [])
    (begins : begun labels ++ begun [label] = List.range ((jobs ++ [other]).countP fun job => job.progress ≠ .pending)) :
    Tallies authorized_clients (labels ++ [label]) { s with tasks := s.tasks.set jobs.length other, completed } := by
  have after : s.tasks.set jobs.length other = jobs ++ [other] := by simp [split]
  have tasks := tallies.tasks
  have logged := tallies.logged
  rw [returned_of_waiting waiting,split,List.dropLast_concat] at logged
  rw [after]
  refine ⟨?_,?_,?_⟩
  · rw [dispatched_append,none,List.append_nil,← tasks,split]
    simp [same]
  · rw [begun_append]
    exact begins
  · refine logged.trans ?_
    rw [@returned_of_waiting ⟨s.main,s.thread,s.stop,jobs ++ [other],completed,s.server⟩ ready jobs.length waiting,
      List.dropLast_concat]

theorem tallies_step {authorized_clients : Clients} {labels : List Label} {s t : State} {label : Label}
    (clients : s.server.authorized_clients = authorized_clients) (ordered : Ordered s) (lives : Lives s)
    (tallies : Tallies authorized_clients labels s) (one : step s label = some t) :
    Tallies authorized_clients (labels ++ [label]) t := by
  -- Labels that neither begin a handler nor a task leave both lists as they are.
  have calm : dispatched [label] = [] → s.tasks.map Job.insert_SQL = calledFor authorized_clients (dispatched (labels ++ [label])) := by
    intro none
    rw [dispatched_append,none,List.append_nil]
    exact tallies.tasks
  have still : begun [label] = [] → begun (labels ++ [label]) = List.range (s.tasks.countP fun job => job.progress ≠ .pending) := by
    intro none
    rw [begun_append,none,List.append_nil]
    exact tallies.begun
  cases steps_of_step one with
  | start early => exact ⟨calm rfl,still rfl,tallies.idle (by rw [ordered.absent early]; nofun)⟩
  | start_server early => exact ⟨calm rfl,still rfl,tallies.logged⟩
  | stop serving => exact ⟨calm rfl,still rfl,tallies.logged⟩
  | finish_work_before_quiting early _ => exact ⟨calm rfl,still rfl,tallies.logged⟩
  | delete_db_handle early => exact ⟨calm rfl,still rfl,tallies.logged⟩
  | run_returns polling _ => exact ⟨calm rfl,still rfl,tallies.idle (by rw [polling]; nofun)⟩
  | handled _ _ _ => exact tallies_dispatch clients tallies one
  | spawned _ _ _ => exact tallies_dispatch clients tallies one
  | @resumed ready task insert_SQL execution server waiting found stepped =>
    refine ⟨calm rfl,still rfl,?_⟩
    obtain ⟨jobs,job,split,rfl,handles⟩ := lives.waits ready task waiting
    have same : job = ⟨insert_SQL,.done execution⟩ := by simpa [split] using found
    subst same
    show executions server = s.tasks.filterMap Job.executed
    rw [executions_step stepped,executedBy_of_handles handles,tallies.logged,returned_of_waiting waiting,split]
    simp [Job.executed]
  | @execute_begins task insert_SQL found =>
    obtain ⟨jobs,ready,split,rfl,_,waiting,finished⟩ := phase_unfinished ordered.phase found
      (by rintro ⟨_,impossible⟩; cases impossible)
    have before := tallies.begun
    rw [split,List.countP_append,countP_begun finished] at before
    refine tallies_last tallies split waiting rfl rfl ?_
    rw [before,List.countP_append,countP_begun finished]
    simp [begun,List.range_succ]
  | @execute_ends task insert_SQL execution found =>
    obtain ⟨jobs,ready,split,rfl,_,waiting,finished⟩ := phase_unfinished ordered.phase found
      (by rintro ⟨_,impossible⟩; cases impossible)
    have before := tallies.begun
    rw [split,List.countP_append,countP_begun finished] at before
    refine tallies_last tallies split waiting rfl rfl ?_
    rw [before,List.countP_append,countP_begun finished]
    simp [begun]

theorem run_tallies {authorized_clients : Clients} {labels : List Label} {s : State}
    (ran : run step (init authorized_clients) labels = some s) : Tallies authorized_clients labels s := by
  refine run_induction (Tallies authorized_clients) ⟨rfl,rfl,rfl⟩ ?_ ran
  intro labels m label t before tallies one
  exact tallies_step (run_clients before) (run_ordered before) (run_lives before) tallies one

/-- Whatever the order of the parties: the tasks are those of the authorized chunks
    whose handlers began, one for each and in their order; no task begins twice or
    before an earlier one; and once no handler waits, what was executed are exactly
    the statements of these chunks, each once and in their order. -/
structure Accounts (authorized_clients : Clients) (labels : List Label) (s : State) : Prop where
  tasks : s.tasks.map Job.insert_SQL = calledFor authorized_clients (dispatched labels)
  begun : begun labels <+: List.range s.tasks.length
  logged : executions s.server <+: s.tasks.filterMap Job.executed
  settled : (∀ ready task, s.thread ≠ .waiting ready task) →
    (executions s.server).map Prod.fst = calledFor authorized_clients (dispatched labels)

private theorem executed_of_finished {jobs : List Job} (finished : ∀ job ∈ jobs, job.finished) :
    (jobs.filterMap Job.executed).map Prod.fst = jobs.map Job.insert_SQL := by
  induction jobs with
  | nil => rfl
  | cons job jobs ih =>
    obtain ⟨execution,done⟩ := finished job (by simp)
    have head : Job.executed job = some (job.insert_SQL,execution) := by simp [Job.executed,done]
    simp [head,ih fun other member => finished other (by simp [member])]

theorem every_chunk_once {authorized_clients : Clients} {labels : List Label} {s : State}
    (ran : run step (init authorized_clients) labels = some s) : Accounts authorized_clients labels s := by
  have tallies := run_tallies ran
  refine ⟨tallies.tasks,?_,?_,?_⟩
  · have few : (s.tasks.countP fun job => job.progress ≠ .pending) ≤ s.tasks.length := List.countP_le_length
    rw [tallies.begun,← Nat.min_eq_left few,← List.take_range]
    exact List.take_prefix _ _
  · rw [tallies.logged]
    refine List.IsPrefix.filterMap _ ?_
    unfold returned
    split
    · exact List.dropLast_prefix _
    · exact List.prefix_rfl
  · intro idle
    rw [tallies.idle idle,executed_of_finished (phase_idle (run_ordered ran).phase idle).1]
    exact tallies.tasks

/-- Two sessions whose reports are handled one after the other. -/
def twoReports : List Label :=
  [.start,.start_server,.dispatch (.accept true),.dispatch (.accept true),.dispatch (.read 1 (.data testReport)),
    .execute_begins 0,.execute_ends 0 .threw,.resume,.dispatch (.read 0 (.data testReport)),.execute_begins 1,
    .execute_ends 1 .returned,.resume]

theorem every_chunk_once_reports : ∃ s, run step (init testClients) twoReports = some s ∧
    (executions s.server).map Prod.fst = calledFor testClients [.data testReport,.data testReport] := by
  have ends : (run step (init testClients) twoReports).map State.thread = some .polling := by decide +kernel
  obtain ⟨s,ran,polling⟩ := Option.map_eq_some_iff.mp ends
  exact ⟨s,ran,(every_chunk_once ran).settled (by rw [polling]; nofun)⟩

/-! ## Shutting down -/

/-- The steps that are left to `main`, to the thread and to a task after the stop. -/
def Main.left : Main → Nat
  | .stopped => 2
  | .joined => 1
  | _ => 0

def Thread.left : Thread → Nat
  | .waiting _ _ => 2
  | .polling => 1
  | _ => 0

def Job.left (job : Job) : Nat :=
  match job.progress with
  | .pending => 2
  | .executing => 1
  | .done _ => 0

def left (s : State) : Nat := s.main.left + s.thread.left + (s.tasks.map Job.left).sum

/-- The parties after `main` stopped the service. -/
structure Stopping (s : State) : Prop where
  ordered : Ordered s
  lives : Lives s
  stop : s.stop = true

theorem Stopping.main {s : State} (stopping : Stopping s) : s.main = .stopped ∨ s.main = .joined ∨ s.main = .deleted :=
  stopping.lives.stopped stopping.stop

theorem stopping_step {s t : State} {label : Label} (stopping : Stopping s) (one : step s label = some t) : Stopping t := by
  refine ⟨ordered_step stopping.ordered (steps_of_step one),lives_step stopping.lives one,?_⟩
  cases steps_of_step one with
  | stop _ => rfl
  | _ => exact stopping.stop

private theorem left_of_finished {jobs : List Job} (finished : ∀ job ∈ jobs, job.finished) : (jobs.map Job.left).sum = 0 := by
  refine List.sum_eq_zero fun weight member => ?_
  obtain ⟨job,inside,rfl⟩ := List.mem_map.mp member
  obtain ⟨execution,done⟩ := finished job inside
  simp [Job.left,done]

/-- The tasks have more left to do the more the last one has. -/
theorem left_of_phase {tasks : List Job} {completed : List Nat} {thread : Thread} (phase : Phase tasks completed thread) :
    (tasks.map Job.left).sum ≤ 2 := by
  cases phase with
  | settled finished => rw [left_of_finished finished]; omega
  | @busy jobs last ready finished _ =>
    rw [List.map_append,List.sum_append,left_of_finished finished]
    cases last.progress <;> simp [Job.left] <;> split <;> omega

theorem stopping_uses {s t : State} {label : Label} (stopping : Stopping s) (one : step s label = some t) :
    1 + left t ≤ left s := by
  have late := stopping.main
  have stop := stopping.stop
  unfold left
  cases steps_of_step one with
  | start early => rcases late with late | late | late <;> rw [early] at late <;> cases late
  | start_server early => rcases late with late | late | late <;> rw [early] at late <;> cases late
  | stop early => rcases late with late | late | late <;> rw [early] at late <;> cases late
  | handled _ running _ => rw [stop] at running; cases running
  | spawned _ running _ => rw [stop] at running; cases running
  | finish_work_before_quiting stopped _ => simp [stopped,Main.left]; omega
  | delete_db_handle joined => simp [joined,Main.left]; omega
  | resumed waiting _ _ => simp [waiting,Thread.left]; omega
  | run_returns polling _ => simp [polling,Thread.left]; omega
  | @execute_begins task insert_SQL found =>
    obtain ⟨jobs,ready,split,rfl,_,_,finished⟩ := phase_unfinished stopping.ordered.phase found
      (by rintro ⟨_,impossible⟩; cases impossible)
    simp only [split]
    simp [Job.left]
    omega
  | @execute_ends task insert_SQL execution found =>
    obtain ⟨jobs,ready,split,rfl,_,_,finished⟩ := phase_unfinished stopping.ordered.phase found
      (by rintro ⟨_,impossible⟩; cases impossible)
    simp only [split]
    simp [Job.left]
    omega

/-- As long as the handle is not deleted, one of the parties can go on. -/
theorem stopping_enabled {s : State} (stopping : Stopping s) (open' : s.main ≠ .deleted) :
    ∃ label t, step s label = some t := by
  have stop := stopping.stop
  rcases stopping.main with stopped | joined | deleted
  · cases thread : s.thread with
    | absent => exact absurd thread (stopping.lives.running (by rw [stopped]; nofun))
    | polling => exact ⟨.run_returns,_,by simp only [step,thread,stop]; rfl⟩
    | returned => exact ⟨.finish_work_before_quiting,_,by simp only [step,thread,stopped]; rfl⟩
    | waiting ready task =>
      obtain ⟨jobs,⟨insert_SQL,progress⟩,split,rfl,handles⟩ := stopping.lives.waits ready task thread
      have found : s.tasks[jobs.length]? = some ⟨insert_SQL,progress⟩ := by simp [split]
      cases progress with
      | pending => exact ⟨.execute_begins jobs.length,_,by simp only [step,execute_begins,found]; rfl⟩
      | executing => exact ⟨.execute_ends jobs.length .returned,_,by simp only [step,execute_ends,found]; rfl⟩
      | done execution =>
        obtain ⟨server,stepped⟩ := handles.enabled execution
        exact ⟨.resume,_,by simp only [step,resume,thread,found,stepped]; rfl⟩
  · exact ⟨.delete_db_handle,_,by simp only [step,joined]; rfl⟩
  · exact absurd deleted open'

/-- The shutdown: every step is one of those that are left. -/
def shutdown : Ranking.Ranked step where
  Inv := Stopping
  Live _ := True
  Done s := s.main = .deleted
  counts _ := true
  measure := left
  keep _ _ _ stopping one := stopping_step stopping one
  back _ _ _ _ _ _ := trivial
  uses _ _ _ stopping one _ := stopping_uses stopping one
  enabled _ stopping open' := by
    obtain ⟨label,t,one⟩ := stopping_enabled stopping open'
    exact ⟨label,t,rfl,one⟩
  dead _ dead := absurd trivial dead

/-- After the stop the parties take six steps at most. -/
theorem stopping_length {s t : State} {labels : List Label} (stopping : Stopping s) (ran : run step s labels = some t) :
    labels.length ≤ 6 := by
  have bound : labels.length ≤ left s := shutdown.length_le (fun _ => rfl) stopping ran trivial
  have tasks := left_of_phase stopping.ordered.phase
  have main : s.main.left ≤ 2 := by cases s.main <;> simp [Main.left]
  have thread : s.thread.left ≤ 2 := by cases s.thread <;> simp [Thread.left]
  unfold left at bound
  omega

/-- After the stop no handler begins. -/
theorem stopping_quiet {s t : State} {labels : List Label} (stopping : Stopping s) (ran : run step s labels = some t) :
    ∀ ready, .dispatch ready ∉ labels := by
  refine run_induction (fun labels _ => ∀ ready, .dispatch ready ∉ labels) (by simp) ?_ ran
  intro labels m label t before quiet one ready member
  rcases List.mem_append.mp member with earlier | last
  · exact quiet ready earlier
  · cases List.mem_singleton.mp last
    have running := (dispatch_cases one).2.1
    rw [(shutdown.run_inv stopping before : Stopping m).stop] at running
    cases running

theorem dispatched_of_quiet {labels : List Label} (quiet : ∀ ready, .dispatch ready ∉ labels) : dispatched labels = [] := by
  refine List.filterMap_eq_nil_iff.mpr fun label member => ?_
  cases label with
  | dispatch ready => exact absurd member (quiet ready)
  | _ => rfl

/-- All tasks but the last one have begun. -/
theorem begun_of_phase {tasks : List Job} {completed : List Nat} {thread : Thread} (phase : Phase tasks completed thread) :
    tasks.length ≤ (tasks.countP fun job => job.progress ≠ .pending) + 1 := by
  cases phase with
  | settled finished =>
    rw [countP_begun finished]
    omega
  | @busy jobs last ready finished _ =>
    rw [List.countP_append,countP_begun finished,List.length_append,List.length_singleton]
    omega

/-- At most the task that was waiting for its thread at the stop begins after it. -/
theorem stopping_begins {authorized_clients : Clients} {labels more : List Label} {s t : State}
    (ran : run step (init authorized_clients) labels = some s) (stop : s.stop = true) (goesOn : run step s more = some t) :
    (begun more).length ≤ 1 := by
  have stopping : Stopping s := ⟨run_ordered ran,run_lives ran,stop⟩
  have before := run_tallies ran
  have after := run_tallies (run_append_some.mpr ⟨s,ran,goesOn⟩)
  have sameTasks : t.tasks.length = s.tasks.length := by
    have counts := congrArg List.length (after.tasks.trans (by
      rw [dispatched_append,dispatched_of_quiet (stopping_quiet stopping goesOn),List.append_nil,← before.tasks]))
    simpa using counts
  have total := congrArg List.length after.begun
  rw [begun_append,List.length_append,before.begun,List.length_range,List.length_range] at total
  have atMost : (t.tasks.countP fun job => job.progress ≠ .pending) ≤ t.tasks.length := List.countP_le_length
  have enough := begun_of_phase (run_ordered ran).phase
  omega

/-- However the parties take turns after `main` stopped the service: they take six
    steps at most, no handler begins and at most one `execute` does; and what they
    did so far can always be continued until the handle is deleted, with no task
    left over. -/
theorem shutdown_completes {authorized_clients : Clients} {labels : List Label} {s : State}
    (ran : run step (init authorized_clients) labels = some s) (stop : s.stop = true) :
    (∀ more t, run step s more = some t →
      more.length ≤ 6 ∧ (∀ ready, .dispatch ready ∉ more) ∧ (begun more).length ≤ 1) ∧
    ∀ more t, run step s more = some t →
      ∃ rest u, run step t rest = some u ∧ u.main = .deleted ∧ ∀ job ∈ u.tasks, job.finished := by
  have stopping : Stopping s := ⟨run_ordered ran,run_lives ran,stop⟩
  refine ⟨?_,?_⟩
  · intro more t goesOn
    exact ⟨stopping_length stopping goesOn,stopping_quiet stopping goesOn,stopping_begins ran stop goesOn⟩
  · intro more t goesOn
    have stopping' : Stopping t := shutdown.run_inv stopping goesOn
    obtain ⟨rest,u,completed,_,deleted⟩ := shutdown.reaches_done stopping'
    have ordered : Ordered u := (shutdown.run_inv stopping' completed : Stopping u).ordered
    have joined := ordered.joined (.inr deleted)
    exact ⟨rest,u,completed,deleted,(phase_idle ordered.phase (by rw [joined]; nofun)).1⟩

/-- `main` stops the service while a task waits for its thread. -/
theorem shutdown_completes_report : ∃ s t, run step (init testClients)
      [.start,.start_server,.dispatch (.accept true),.dispatch (.read 0 (.data testReport)),.stop] = some s ∧
    (∃ rest, run step s rest = some t) ∧ t.main = .deleted ∧ ∀ job ∈ t.tasks, job.finished := by
  have ends : (run step (init testClients)
      [.start,.start_server,.dispatch (.accept true),.dispatch (.read 0 (.data testReport)),.stop]).map State.stop =
      some true := by decide +kernel
  obtain ⟨s,ran,stop⟩ := Option.map_eq_some_iff.mp ends
  obtain ⟨rest,t,completed,deleted,finished⟩ := (shutdown_completes ran stop).2 [] s rfl
  exact ⟨s,t,ran,⟨rest,completed⟩,deleted,finished⟩

end SysInfo.Service
