import SysInfo.Transition
import SysInfo.Utils

/-!
# One session of the server

`sys_info_server_session` as the callbacks it starts: `do_read` starts an
asynchronous read, its handler parses, authorizes, inserts and starts an
asynchronous write, and the handler of that starts the next read. A handler runs
to its end before the next one, so a session steps from completion to completion.
Console output is not modelled.
-/

namespace SysInfo.Session
open SysInfo.Text SysInfo.Utils SysInfo.Transition

/-- The size of the buffer `data_`, the most bytes one read delivers. -/
def max_length : Nat := 1024

/-- What the read handler receives: the bytes of a successful read, or an error. -/
inductive ReadResult where
  | data (chunk : Bytes)
  | error
  deriving DecidableEq

/-- What `std::async` without a policy may choose: a thread of its own, or
    nothing at all, the future being discarded. -/
inductive Launch where
  | async
  | deferred
  deriving DecidableEq

/-- How a call of `db_handle->execute` ends. -/
inductive Execution where
  | returned
  | threw
  deriving DecidableEq

structure Task where
  launch : Launch
  execution : Execution
  deriving DecidableEq

/-- The three reply constants of a session. -/
inductive Reply where
  | READ_SUCCESS
  | READ_FAILURE
  | NOT_AUTHORIZED
  deriving DecidableEq

/-- The char arrays `"0\0"`, `"1\0"` and `"2\0"` of length three. -/
def Reply.data : Reply → Bytes
  | .READ_SUCCESS => [48,0,0]
  | .READ_FAILURE => [49,0,0]
  | .NOT_AUTHORIZED => [50,0,0]

/-- The bytes `do_write(data, strlen(data))` puts on the wire. -/
def Reply.wire (reply : Reply) : Bytes := reply.data.take ((strlen reply.data).getD 0)

/-- What a session does, in the order in which it does it. `write_to_db` carries
    the detail whose statement it is called with. -/
inductive Event where
  | do_read
  | do_write (data : Reply)
  | write_to_db (c_detail : ClientDetail)
  | execute (insert_SQL : Bytes) (execution : Execution)
  | send_email
  deriving DecidableEq

/-- The asynchronous operations that complete through a handler. -/
inductive Op where
  | read
  | write
  deriving DecidableEq

def Event.op : Event → Option Op
  | .do_read => some .read
  | .do_write _ => some .write
  | _ => none

/-- The task runs `execute`, and drops what it throws, unless it is deferred. -/
def write_to_db (insert_SQL : Bytes) (task : Task) : List Event :=
  match task.launch with
  | .async => [.execute insert_SQL task.execution]
  | .deferred => []

/-- The rest of the read handler once `write_to_db` returned. -/
def after_write_to_db (authorized_clients : Clients) (c_detail : ClientDetail) : List Event × Clients :=
  let (send,authorized_clients) := should_send_email authorized_clients c_detail.client_key c_detail
  ((if send then [.send_email] else []) ++ [.do_write .READ_SUCCESS],authorized_clients)

/-- The handler of `do_read`; `none` where the parser indexes out of range. -/
def on_read (authorized_clients : Clients) (result : ReadResult) (task : Task) : Option (List Event × Clients) :=
  match result with
  | .data data_copy => do
    let c_detail ← parse_to_client_detail data_copy
    if !is_client_authorized authorized_clients c_detail.client_key then
      return ([.do_write .NOT_AUTHORIZED],authorized_clients)
    else
      let (events,authorized_clients) := after_write_to_db authorized_clients c_detail
      return (.write_to_db c_detail :: write_to_db (generate_insert_str_for c_detail) task ++ events,authorized_clients)
  | .error => return ([.do_write .READ_FAILURE],authorized_clients)

/-- The handler of `do_write`. -/
def on_write (ok : Bool) : List Event := if ok then [.do_read] else []

/-- The completion of an outstanding operation. -/
inductive Completion where
  | read (result : ReadResult) (task : Task)
  | write (ok : Bool)

def Completion.op : Completion → Op
  | .read _ _ => .read
  | .write _ => .write

def handler (authorized_clients : Clients) : Completion → Option (List Event × Clients)
  | .read result task => on_read authorized_clients result task
  | .write ok => some (on_write ok,authorized_clients)

/-- A session with the map it shares, its operations in flight and what it did
    so far. After a fault nothing is defined, so nothing more happens. -/
structure State where
  authorized_clients : Clients
  outstanding : List Op
  log : List Event
  fault : Bool

/-- `start` calls `do_read`. -/
def start (authorized_clients : Clients) : State := ⟨authorized_clients,[.read],[.do_read],false⟩

def step (s : State) (completion : Completion) : Option State :=
  if s.fault = false ∧ completion.op ∈ s.outstanding then
    let outstanding := s.outstanding.erase completion.op
    match handler s.authorized_clients completion with
    | some (events,authorized_clients) =>
      some ⟨authorized_clients,outstanding ++ events.filterMap Event.op,s.log ++ events,false⟩
    | none => some { s with outstanding, fault := true }
  else none

/-! ## What a handler does

The body of the sequential loop: what one read result calls for, as a function of
the entries of the map alone. -/

/-- What a parsed report calls for. -/
def respondTo (authorized_clients : Clients) (c_detail : ClientDetail) (task : Task) : List Event :=
  match authorized_clients.lookup c_detail.client_key with
  | none => [.do_write .NOT_AUTHORIZED]
  | some c_config =>
    .write_to_db c_detail :: write_to_db (generate_insert_str_for c_detail) task ++
      (if limitCrossed c_config c_detail then [.send_email] else []) ++ [.do_write .READ_SUCCESS]

def respond (authorized_clients : Clients) : ReadResult → Task → Option (List Event)
  | .error, _ => some [.do_write .READ_FAILURE]
  | .data chunk, task => (parse_to_client_detail chunk).map fun c_detail => respondTo authorized_clients c_detail task

/-- The handler does what the loop body says and leaves the shared map alone: the
    inserting lookup comes after the key was found. -/
theorem on_read_eq (authorized_clients : Clients) (result : ReadResult) (task : Task) :
    on_read authorized_clients result task =
      (respond authorized_clients result task).map fun events => (events,authorized_clients) := by
  cases result with
  | error => rfl
  | data chunk =>
    cases parsed : parse_to_client_detail chunk with
    | none => simp [on_read,respond,parsed]
    | some c_detail =>
      cases found : authorized_clients.lookup c_detail.client_key with
      | none =>
        have refused : is_client_authorized authorized_clients c_detail.client_key = false := by
          simp [is_client_authorized,found]
        simp [on_read,respond,respondTo,parsed,found,refused]
      | some c_config =>
        have granted : is_client_authorized authorized_clients c_detail.client_key = true := by
          simp [is_client_authorized,found]
        simp [on_read,respond,respondTo,parsed,found,granted,after_write_to_db,should_send_email_of_lookup found]

/-- The parser indexes in range on what was read. -/
def InRange : ReadResult → Prop
  | .data chunk => (parse_to_client_detail chunk).isSome
  | .error => True

theorem respond_of_inRange (authorized_clients : Clients) {result : ReadResult} (inRange : InRange result) (task : Task) :
    ∃ events, respond authorized_clients result task = some events := by
  cases result with
  | error => exact ⟨_,rfl⟩
  | data chunk =>
    obtain ⟨c_detail,parsed⟩ := Option.isSome_iff_exists.mp inRange
    exact ⟨respondTo authorized_clients c_detail task,by simp [respond,parsed]⟩

theorem inRange_of_respond {authorized_clients : Clients} {result : ReadResult} {task : Task} {events : List Event}
    (responds : respond authorized_clients result task = some events) : InRange result := by
  cases result with
  | error => trivial
  | data chunk =>
    obtain ⟨c_detail,parsed,_⟩ := Option.map_eq_some_iff.mp responds
    simp [InRange,parsed]

/-- The task of a report shows nothing but its call of `execute`. -/
theorem write_to_db_shows {Shown : Type} {shows : Event → Option Shown}
    (silent : ∀ insert_SQL execution, shows (.execute insert_SQL execution) = none) (insert_SQL : Bytes) (task : Task) :
    (write_to_db insert_SQL task).filterMap shows = [] := by
  unfold write_to_db
  cases task.launch <;> simp [silent]

/-- Every answered read starts exactly one write. -/
theorem respond_op {authorized_clients : Clients} {result : ReadResult} {task : Task} {events : List Event}
    (responds : respond authorized_clients result task = some events) : events.filterMap Event.op = [.write] := by
  cases result with
  | error => cases responds; rfl
  | data chunk =>
    obtain ⟨c_detail,_,rfl⟩ := Option.map_eq_some_iff.mp responds
    unfold respondTo
    split
    · rfl
    · rename_i c_config _
      have silent := @write_to_db_shows _ Event.op (fun _ _ => rfl) (generate_insert_str_for c_detail) task
      cases limitCrossed c_config c_detail <;> simp [List.filterMap_cons,List.filterMap_append,silent,Event.op]

/-- Everything a step of a session can do. -/
theorem step_cases {s t : State} {completion : Completion} (one : step s completion = some t) :
    s.fault = false ∧
    ((∃ result task events, completion = .read result task ∧ .read ∈ s.outstanding ∧
        respond s.authorized_clients result task = some events ∧
        t = ⟨s.authorized_clients,s.outstanding.erase .read ++ [.write],s.log ++ events,false⟩) ∨
      (∃ result task, completion = .read result task ∧ .read ∈ s.outstanding ∧
        respond s.authorized_clients result task = none ∧
        t = ⟨s.authorized_clients,s.outstanding.erase .read,s.log,true⟩) ∨
      (∃ ok, completion = .write ok ∧ .write ∈ s.outstanding ∧
        t = ⟨s.authorized_clients,s.outstanding.erase .write ++ (if ok then [.read] else []),s.log ++ on_write ok,false⟩)) := by
  unfold step at one
  split at one
  · rename_i enabled
    refine ⟨enabled.1,?_⟩
    cases completion with
    | read result task =>
      cases responds : respond s.authorized_clients result task with
      | none =>
        simp only [handler,on_read_eq,responds,Option.map_none,Option.some.injEq] at one
        exact .inr (.inl ⟨result,task,rfl,enabled.2,responds,one.symm⟩)
      | some events =>
        simp only [handler,on_read_eq,responds,Option.map_some,Option.some.injEq] at one
        refine .inl ⟨result,task,events,rfl,enabled.2,responds,?_⟩
        rw [← one,respond_op responds]
        rfl
    | write ok =>
      simp only [handler,Option.some.injEq] at one
      refine .inr (.inr ⟨ok,rfl,enabled.2,?_⟩)
      rw [← one]
      cases ok <;> rfl
  · cases one

/-- The completion of an outstanding operation is always handled. -/
theorem step_enabled {s : State} (completion : Completion) (alive : s.fault = false)
    (inFlight : completion.op ∈ s.outstanding) : ∃ t, step s completion = some t := by
  unfold step
  rw [if_pos ⟨alive,inFlight⟩]
  cases handler s.authorized_clients completion with
  | none => exact ⟨_,rfl⟩
  | some result => exact ⟨_,rfl⟩

/-- A new session handles whatever its first read gives. -/
theorem first_read (authorized_clients : Clients) (result : ReadResult) (task : Task) :
    ∃ t, step (start authorized_clients) (.read result task) = some t :=
  step_enabled (.read result task) rfl (by simp [start,Completion.op])

end SysInfo.Session
