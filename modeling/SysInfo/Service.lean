import SysInfo.Server

/-!
# The parties of the server process

`main`, the thread that runs the handlers, and a thread for each task of
`std::async`. The temporary future of a task is destroyed inside of the handler
that started it, and its destructor waits for the task: the handler rests between
the two. `main` stops the service, joins the thread and deletes the handle.
-/

namespace SysInfo.Service
open SysInfo.Text SysInfo.Utils SysInfo.Transition SysInfo.Session SysInfo.SessionRuns

/-- How far `main` is. -/
inductive Main where
  | constructed
  | started
  | serving
  | stopped
  | joined
  | deleted
  deriving DecidableEq

/-- What the system reports to the service: the completions of the server, before
    the outcome of a task is known. -/
inductive Ready where
  | accept (ok : Bool)
  | read (session : Nat) (result : ReadResult)
  | write (session : Nat) (ok : Bool)
  deriving DecidableEq

/-- The thread that runs `io_service.run()`: between two handlers, or in one that
    waits for its task. -/
inductive Thread where
  | absent
  | polling
  | waiting (ready : Ready) (task : Nat)
  | returned
  deriving DecidableEq

inductive Progress where
  | pending
  | executing
  | done (execution : Execution)
  deriving DecidableEq

/-- A task of `write_to_db`. -/
structure Job where
  insert_SQL : Bytes
  progress : Progress
  deriving DecidableEq

structure State where
  main : Main
  thread : Thread
  /-- `io_service.stop()` was called. -/
  stop : Bool
  /-- The tasks in the order in which their chunks were handled. -/
  tasks : List Job
  /-- The tasks in the order in which their `execute` ended. -/
  completed : List Nat
  server : Server.State

def init (authorized_clients : Clients) : State := ⟨.constructed,.absent,false,[],[],Server.start authorized_clients⟩

inductive Label where
  | start
  | start_server
  | stop
  | finish_work_before_quiting
  | delete_db_handle
  | dispatch (ready : Ready)
  | resume
  | run_returns
  | execute_begins (task : Nat)
  | execute_ends (task : Nat) (execution : Execution)
  deriving DecidableEq

def Ready.input (execution : Execution) : Ready → Server.Input
  | .accept ok => .accept ok
  | .read session result => .complete session (.read result ⟨.async,execution⟩)
  | .write session ok => .complete session (.write ok)

/-- The statement that a handler passes to `write_to_db`. -/
def Ready.insert_SQL (authorized_clients : Clients) : Ready → Option Bytes
  | .read _ result => (stored authorized_clients result).map generate_insert_str_for
  | _ => none

/-- A connection can be accepted once the acceptor was constructed. -/
def Ready.possible (main : Main) : Ready → Bool
  | .accept _ => main ≠ .constructed && main ≠ .started
  | _ => true

/-- The handler up to the wait for its task, or all of it when it has none. -/
def dispatch (s : State) (ready : Ready) : Option State :=
  if s.thread = .polling ∧ s.stop = false ∧ ready.possible s.main then
    (Server.step s.server (ready.input .returned)).map fun server =>
      match ready.insert_SQL s.server.authorized_clients with
      | some insert_SQL =>
        { s with thread := .waiting ready s.tasks.length, tasks := s.tasks ++ [⟨insert_SQL,.pending⟩] }
      | none => { s with server }
  else none

/-- The rest of the handler, when its task is done. -/
def resume (s : State) : Option State :=
  match s.thread with
  | .waiting ready task =>
    match s.tasks[task]? with
    | some ⟨_,.done execution⟩ =>
      (Server.step s.server (ready.input execution)).map fun server => { s with thread := .polling, server }
    | _ => none
  | _ => none

/-- A thread of its own for each task. -/
def execute_begins (s : State) (task : Nat) : Option State :=
  match s.tasks[task]? with
  | some ⟨insert_SQL,.pending⟩ => some { s with tasks := s.tasks.set task ⟨insert_SQL,.executing⟩ }
  | _ => none

def execute_ends (s : State) (task : Nat) (execution : Execution) : Option State :=
  match s.tasks[task]? with
  | some ⟨insert_SQL,.executing⟩ =>
    some { s with tasks := s.tasks.set task ⟨insert_SQL,.done execution⟩, completed := s.completed ++ [task] }
  | _ => none

def step (s : State) : Label → Option State
  | .start => if s.main = .constructed then some { s with main := .started, thread := .polling } else none
  | .start_server => if s.main = .started then some { s with main := .serving } else none
  | .stop => if s.main = .serving then some { s with main := .stopped, stop := true } else none
  | .finish_work_before_quiting =>
    if s.main = .stopped ∧ s.thread = .returned then some { s with main := .joined } else none
  | .delete_db_handle => if s.main = .joined then some { s with main := .deleted } else none
  | .dispatch ready => dispatch s ready
  | .resume => resume s
  | .run_returns => if s.thread = .polling ∧ s.stop then some { s with thread := .returned } else none
  | .execute_begins task => execute_begins s task
  | .execute_ends task execution => execute_ends s task execution

def Job.finished (job : Job) : Prop := ∃ execution, job.progress = .done execution

/-- What a step does, guards included. -/
inductive Steps (s : State) : Label → State → Prop where
  | start : s.main = .constructed → Steps s .start { s with main := .started, thread := .polling }
  | start_server : s.main = .started → Steps s .start_server { s with main := .serving }
  | stop : s.main = .serving → Steps s .stop { s with main := .stopped, stop := true }
  | finish_work_before_quiting : s.main = .stopped → s.thread = .returned →
      Steps s .finish_work_before_quiting { s with main := .joined }
  | delete_db_handle : s.main = .joined → Steps s .delete_db_handle { s with main := .deleted }
  | handled {ready server} : s.thread = .polling → s.stop = false →
      Server.step s.server (ready.input .returned) = some server →
      Steps s (.dispatch ready) { s with server }
  | spawned {ready insert_SQL} : s.thread = .polling → s.stop = false →
      ready.insert_SQL s.server.authorized_clients = some insert_SQL →
      Steps s (.dispatch ready)
        { s with thread := .waiting ready s.tasks.length, tasks := s.tasks ++ [⟨insert_SQL,.pending⟩] }
  | resumed {ready task insert_SQL execution server} : s.thread = .waiting ready task →
      s.tasks[task]? = some ⟨insert_SQL,.done execution⟩ → Server.step s.server (ready.input execution) = some server →
      Steps s .resume { s with thread := .polling, server }
  | run_returns : s.thread = .polling → s.stop = true → Steps s .run_returns { s with thread := .returned }
  | execute_begins {task insert_SQL} : s.tasks[task]? = some ⟨insert_SQL,.pending⟩ →
      Steps s (.execute_begins task) { s with tasks := s.tasks.set task ⟨insert_SQL,.executing⟩ }
  | execute_ends {task insert_SQL execution} : s.tasks[task]? = some ⟨insert_SQL,.executing⟩ →
      Steps s (.execute_ends task execution)
        { s with tasks := s.tasks.set task ⟨insert_SQL,.done execution⟩, completed := s.completed ++ [task] }

theorem steps_of_step {s t : State} {label : Label} (one : step s label = some t) : Steps s label t := by
  cases label with
  | start =>
    obtain ⟨guard,rfl⟩ : s.main = .constructed ∧ { s with main := .started, thread := .polling } = t := by
      simpa [step] using one
    exact .start guard
  | start_server =>
    obtain ⟨guard,rfl⟩ : s.main = .started ∧ { s with main := .serving } = t := by simpa [step] using one
    exact .start_server guard
  | stop =>
    obtain ⟨guard,rfl⟩ : s.main = .serving ∧ { s with main := .stopped, stop := true } = t := by simpa [step] using one
    exact .stop guard
  | finish_work_before_quiting =>
    obtain ⟨⟨guard,joined⟩,rfl⟩ : (s.main = .stopped ∧ s.thread = .returned) ∧ { s with main := .joined } = t := by
      simpa [step] using one
    exact .finish_work_before_quiting guard joined
  | delete_db_handle =>
    obtain ⟨guard,rfl⟩ : s.main = .joined ∧ { s with main := .deleted } = t := by simpa [step] using one
    exact .delete_db_handle guard
  | dispatch ready =>
    simp only [step,dispatch] at one
    split at one
    · rename_i guard
      obtain ⟨server,handled,rfl⟩ := Option.map_eq_some_iff.mp one
      split
      · rename_i insert_SQL statement
        exact .spawned guard.1 guard.2.1 statement
      · exact .handled guard.1 guard.2.1 handled
    · cases one
  | resume =>
    simp only [step,resume] at one
    split at one
    · rename_i ready task waiting
      split at one
      · rename_i insert_SQL execution found
        obtain ⟨server,handled,rfl⟩ := Option.map_eq_some_iff.mp one
        exact .resumed waiting found handled
      · cases one
    · cases one
  | run_returns =>
    obtain ⟨⟨polling,stopped⟩,rfl⟩ : (s.thread = .polling ∧ s.stop = true) ∧ { s with thread := .returned } = t := by
      simpa [step] using one
    exact .run_returns polling stopped
  | execute_begins task =>
    simp only [step,execute_begins] at one
    split at one
    · rename_i insert_SQL found
      cases one
      exact .execute_begins found
    · cases one
  | execute_ends task execution =>
    simp only [step,execute_ends] at one
    split at one
    · rename_i insert_SQL found
      cases one
      exact .execute_ends found
    · cases one

/-! ## One statement at a time -/

/-- The tasks so far, those whose `execute` ended, and the thread: every task is
    done, or all but the last one, for which the thread waits. -/
inductive Phase : List Job → List Nat → Thread → Prop where
  | settled {jobs thread} : (∀ job ∈ jobs, job.finished) → Phase jobs (List.range jobs.length) thread
  | busy {jobs last ready} : (∀ job ∈ jobs, job.finished) → ¬ last.finished →
      Phase (jobs ++ [last]) (List.range jobs.length) (.waiting ready jobs.length)

/-- What holds of the parties in every reachable state. -/
structure Ordered (s : State) : Prop where
  phase : Phase s.tasks s.completed s.thread
  absent : s.main = .constructed → s.thread = .absent
  joined : s.main = .joined ∨ s.main = .deleted → s.thread = .returned

/-- Unless the thread waits, all tasks are done. -/
theorem phase_idle {tasks : List Job} {completed : List Nat} {thread : Thread} (phase : Phase tasks completed thread)
    (idle : ∀ ready task, thread ≠ .waiting ready task) :
    (∀ job ∈ tasks, job.finished) ∧ completed = List.range tasks.length := by
  cases phase with
  | settled finished => exact ⟨finished,rfl⟩
  | busy _ _ => exact absurd rfl (idle _ _)

/-- A task that is not done is the last one, and the thread waits for it. -/
theorem phase_unfinished {tasks : List Job} {completed : List Nat} {thread : Thread} (phase : Phase tasks completed thread)
    {task : Nat} {job : Job} (found : tasks[task]? = some job) (unfinished : ¬ job.finished) :
    ∃ jobs ready, tasks = jobs ++ [job] ∧ task = jobs.length ∧ completed = List.range jobs.length ∧
      thread = .waiting ready jobs.length ∧ ∀ job ∈ jobs, job.finished := by
  cases phase with
  | settled finished => exact absurd (finished job (List.mem_of_getElem? found)) unfinished
  | @busy jobs last ready finished _ =>
    have inside := (List.getElem?_eq_some_iff.mp found).1
    rcases Nat.lt_or_ge task jobs.length with earlier | later
    · rw [List.getElem?_append_left earlier] at found
      exact absurd (finished job (List.mem_of_getElem? found)) unfinished
    · have atEnd : task = jobs.length := by simp at inside; omega
      subst atEnd
      have same : last = job := by simpa using found
      exact ⟨jobs,ready,by rw [same],rfl,rfl,rfl,finished⟩

/-- The task that the thread waits for is the last one: once it is done, all are. -/
theorem phase_resumable {tasks : List Job} {completed : List Nat} {thread : Thread} (phase : Phase tasks completed thread)
    {ready : Ready} {task : Nat} (waiting : thread = .waiting ready task) {job : Job} (found : tasks[task]? = some job)
    (finished : job.finished) : (∀ job ∈ tasks, job.finished) ∧ completed = List.range tasks.length := by
  cases phase with
  | settled all => exact ⟨all,rfl⟩
  | @busy jobs last _ _ unfinished =>
    cases waiting
    have same : last = job := by simpa using found
    exact absurd (same ▸ finished) unfinished

private theorem set_last (jobs : List Job) (last other : Job) : (jobs ++ [last]).set jobs.length other = jobs ++ [other] := by
  simp

theorem ordered_step {s t : State} {label : Label} (ordered : Ordered s) (one : Steps s label t) : Ordered t := by
  obtain ⟨phase,absent,joined⟩ := ordered
  cases one with
  | start guard =>
    obtain ⟨finished,order⟩ := phase_idle phase (by rw [absent guard]; nofun)
    refine ⟨?_,nofun,by simp⟩
    show Phase s.tasks s.completed .polling
    rw [order]
    exact .settled finished
  | start_server guard => exact ⟨phase,nofun,by simp⟩
  | stop guard => exact ⟨phase,nofun,by simp⟩
  | finish_work_before_quiting guard returned => exact ⟨phase,nofun,fun _ => returned⟩
  | delete_db_handle guard => exact ⟨phase,nofun,fun _ => joined (.inl guard)⟩
  | handled polling running stepped => exact ⟨phase,absent,joined⟩
  | @spawned ready insert_SQL polling running statement =>
    obtain ⟨finished,order⟩ := phase_idle phase (by rw [polling]; nofun)
    refine ⟨?_,?_,?_⟩
    · show Phase (s.tasks ++ [⟨insert_SQL,.pending⟩]) s.completed (.waiting ready s.tasks.length)
      rw [order]
      exact .busy finished (by rintro ⟨_,impossible⟩; cases impossible)
    · intro early
      rw [polling] at absent
      cases absent early
    · intro late
      rw [polling] at joined
      cases joined late
  | @resumed ready task insert_SQL execution server waiting found stepped =>
    obtain ⟨finished,order⟩ := phase_resumable phase waiting found ⟨execution,rfl⟩
    refine ⟨?_,?_,?_⟩
    · show Phase s.tasks s.completed .polling
      rw [order]
      exact .settled finished
    · intro early
      rw [waiting] at absent
      cases absent early
    · intro late
      rw [waiting] at joined
      cases joined late
  | run_returns polling stopped =>
    obtain ⟨finished,order⟩ := phase_idle phase (by rw [polling]; nofun)
    refine ⟨?_,?_,fun _ => rfl⟩
    · show Phase s.tasks s.completed .returned
      rw [order]
      exact .settled finished
    · intro early
      rw [polling] at absent
      cases absent early
  | @execute_begins task insert_SQL found =>
    obtain ⟨jobs,ready,tasks,rfl,order,waiting,finished⟩ := phase_unfinished phase found
      (by rintro ⟨_,impossible⟩; cases impossible)
    refine ⟨?_,absent,joined⟩
    show Phase (s.tasks.set jobs.length ⟨insert_SQL,.executing⟩) s.completed s.thread
    rw [tasks,order,waiting,set_last]
    exact .busy finished (by rintro ⟨_,impossible⟩; cases impossible)
  | @execute_ends task insert_SQL execution found =>
    obtain ⟨jobs,ready,tasks,rfl,order,waiting,finished⟩ := phase_unfinished phase found
      (by rintro ⟨_,impossible⟩; cases impossible)
    refine ⟨?_,absent,joined⟩
    show Phase (s.tasks.set jobs.length ⟨insert_SQL,.done execution⟩) (s.completed ++ [jobs.length]) s.thread
    have more : List.range jobs.length ++ [jobs.length] = List.range (jobs ++ [(⟨insert_SQL,.done execution⟩ : Job)]).length := by
      rw [List.length_append,List.length_singleton,List.range_succ]
    rw [tasks,order,set_last,more]
    refine .settled ?_
    intro job member
    rcases List.mem_append.mp member with earlier | new
    · exact finished job earlier
    · cases List.mem_singleton.mp new
      exact ⟨execution,rfl⟩

theorem run_ordered {authorized_clients : Clients} {labels : List Label} {s : State}
    (ran : run step (init authorized_clients) labels = some s) : Ordered s :=
  run_invariant Ordered (fun _ _ _ ordered one => ordered_step ordered (steps_of_step one)) ran
    ⟨@Phase.settled [] _ (by simp),fun _ => rfl,by simp [init]⟩

/-- The service adds nothing to what the handlers do: its server is one that the
    handlers reach one after the other. -/
theorem service_refines_server {authorized_clients : Clients} {labels : List Label} {s : State}
    (ran : run step (init authorized_clients) labels = some s) :
    ∃ inputs, run Server.step (Server.start authorized_clients) inputs = some s.server := by
  have answered : ∀ (s : State) (label : Label) (t : State) (server : Server.State), s.server = server →
      step s label = some t → ∃ inputs next, run Server.step server inputs = some next ∧ t.server = next := by
    rintro s label t _ rfl one
    cases steps_of_step one with
    | handled _ _ stepped => exact ⟨[_],_,run_cons_some.mpr ⟨_,stepped,rfl⟩,rfl⟩
    | resumed _ _ stepped => exact ⟨[_],_,run_cons_some.mpr ⟨_,stepped,rfl⟩,rfl⟩
    | _ => exact ⟨[],_,rfl,rfl⟩
  obtain ⟨inputs,_,reached,rfl⟩ := run_simulation (fun (s : State) server => s.server = server) answered rfl ran
  exact ⟨inputs,reached⟩

theorem executing_atMostOne {tasks : List Job} {completed : List Nat} {thread : Thread} (phase : Phase tasks completed thread) :
    (tasks.filter fun job => job.progress = .executing).length ≤ 1 := by
  have none : ∀ {jobs : List Job}, (∀ job ∈ jobs, job.finished) → jobs.filter (fun job => job.progress = .executing) = [] := by
    intro jobs finished
    rw [List.filter_eq_nil_iff]
    intro job member
    obtain ⟨execution,done⟩ := finished job member
    simp [done]
  cases phase with
  | settled finished => simp [none finished]
  | busy finished _ =>
    rw [List.filter_append,none finished,List.nil_append]
    exact List.length_filter_le _ _

theorem completed_inOrder {tasks : List Job} {completed : List Nat} {thread : Thread} (phase : Phase tasks completed thread) :
    completed <+: List.range tasks.length := by
  cases phase with
  | settled _ => exact List.prefix_rfl
  | busy _ _ =>
    rw [List.length_append,List.length_singleton,List.range_succ]
    exact List.prefix_append _ _

/-- In every state that the parties reach, whenever `main` stops the service: at
    most one `execute` is in progress, they end in the order in which their chunks
    were handled, and once the handle is deleted none is in progress or starts. -/
theorem db_handle_exclusive {authorized_clients : Clients} {labels : List Label} {s : State}
    (ran : run step (init authorized_clients) labels = some s) :
    (s.tasks.filter fun job => job.progress = .executing).length ≤ 1 ∧
      s.completed <+: List.range s.tasks.length ∧
      (s.main = .deleted → (∀ job ∈ s.tasks, job.finished) ∧ ∀ task, step s (.execute_begins task) = none) := by
  have ordered := run_ordered ran
  refine ⟨executing_atMostOne ordered.phase,completed_inOrder ordered.phase,?_⟩
  intro deleted
  have returned := ordered.joined (.inr deleted)
  obtain ⟨finished,_⟩ := phase_idle ordered.phase (by rw [returned]; nofun)
  refine ⟨finished,?_⟩
  intro task
  simp only [step,execute_begins]
  split
  · rename_i insert_SQL found
    obtain ⟨_,impossible⟩ := finished _ (List.mem_of_getElem? found)
    cases impossible
  · rfl

/-- `main` stops the service while a statement is executed. -/
def stoppedWhileExecuting : List Label :=
  [.start,.start_server,.dispatch (.accept true),.dispatch (.read 0 (.data testReport)),.execute_begins 0,.stop,
    .execute_ends 0 .threw,.resume,.run_returns,.finish_work_before_quiting,.delete_db_handle]

theorem db_handle_exclusive_report : ∃ s, run step (init testClients) stoppedWhileExecuting = some s ∧
    s.completed <+: List.range s.tasks.length ∧ ∀ job ∈ s.tasks, job.finished := by
  have ends : (run step (init testClients) stoppedWhileExecuting).map State.main = some .deleted := by decide +kernel
  obtain ⟨s,ran,deleted⟩ := Option.map_eq_some_iff.mp ends
  obtain ⟨_,order,after⟩ := db_handle_exclusive ran
  exact ⟨s,ran,order,(after deleted).1⟩

end SysInfo.Service
