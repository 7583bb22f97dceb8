import SysInfo.ServerMain
import SysInfo.ServiceLifecycle
import SysInfo.ServiceRuns
import SysInfo.UserInput

/-!
# How the server program ends

`main` of `server_main.cpp` among the parties of its process: the user it waits for,
the thread that runs the handlers of whatever peers send, and the tasks. The service
object lives and ends with the calls of `main`.
-/

namespace SysInfo.ServerProcess
open SysInfo.Text SysInfo.Transition SysInfo.Utils SysInfo.Session SysInfo.SessionRuns SysInfo.ServerMain SysInfo.UserInput

inductive Exit where
  | returned (code : Nat)
  /-- By `std::terminate`. -/
  | terminated
  /-- A handler indexed out of range: nothing is defined from there on. -/
  | undefined
  deriving DecidableEq

structure State where
  input : Bytes
  /-- The endpoint can be bound. -/
  binds : Bool
  object : ServiceLifecycle.State
  service : Service.State
  exit : Option Exit

/-- `main` up to the service object, on a system where some endpoints can be bound. -/
def main (env : Environment) (binds : Endpoint → Bool) (argv : List Bytes) (input : Bytes) : State :=
  match main_start env argv with
  | .error _ => ⟨input,false,ServiceLifecycle.server_service,Service.init ∅,some (.returned 1)⟩
  | .ok listening => ⟨input,binds listening.acceptor,ServiceLifecycle.server_service,
      Service.init listening.server.authorized_clients,none⟩

inductive Label where
  | start
  | start_server
  /-- `wait_till_user_quits` returns, and `stop` is called. -/
  | quits (fuel : Nat)
  | finish_work_before_quiting
  | delete_db_handle
  /-- The scope of the object ends. -/
  | leaves
  | thread (label : Service.Label)

/-- The label is one of the service thread or of a task. -/
def ofThread : Service.Label → Bool
  | .dispatch _ => true
  | .resume => true
  | .run_returns => true
  | .execute_begins _ => true
  | .execute_ends _ _ => true
  | _ => false

/-- What becomes of `main` when the object is gone and it would return a code. -/
def ending (object : ServiceLifecycle.State) (code : Nat) : Exit :=
  if object.phase = .terminated then .terminated else .returned code

/-- A call of `main`, on the object and among the parties. -/
def call (s : State) (op : ServiceLifecycle.Op) (label : Service.Label) : Option State := do
  let object ← ServiceLifecycle.step s.object op
  let service ← Service.step s.service label
  return { s with object, service }

def step (s : State) (label : Label) : Option State := do
  guard (s.exit = none)
  match label with
  | .start => call s .start .start
  | .start_server =>
    if s.binds then call s (.start_server true) .start_server
    else
      guard (s.service.main = .started)
      let object ← ServiceLifecycle.step s.object (.start_server false)
      return { s with object, exit := some (ending object 1) }
  | .quits fuel =>
    guard (server_service.wait_till_user_quits fuel (.opened s.input)).isSome
    call s .stop .stop
  | .finish_work_before_quiting => call s .finish_work_before_quiting .finish_work_before_quiting
  | .delete_db_handle =>
    let service ← Service.step s.service .delete_db_handle
    return { s with service }
  | .leaves =>
    guard (s.service.main = .deleted)
    let object ← ServiceLifecycle.step s.object .leave
    return { s with object, exit := some (ending object 0) }
  | .thread label =>
    guard (ofThread label = true)
    let service ← Service.step s.service label
    return { s with service, exit := if service.server.fault then some .undefined else none }

/-- What a step does, guards included. -/
inductive Steps (s : State) : Label → State → Prop where
  | start {object service} : ServiceLifecycle.step s.object .start = some object →
      Service.step s.service .start = some service → Steps s .start { s with object, service }
  | start_server {object service} : s.binds = true → ServiceLifecycle.step s.object (.start_server true) = some object →
      Service.step s.service .start_server = some service → Steps s .start_server { s with object, service }
  | throws {object} : s.binds = false → s.service.main = .started →
      ServiceLifecycle.step s.object (.start_server false) = some object →
      Steps s .start_server { s with object, exit := some (ending object 1) }
  | quits {fuel object service} : quit ∈ lines s.input → ServiceLifecycle.step s.object .stop = some object →
      Service.step s.service .stop = some service → Steps s (.quits fuel) { s with object, service }
  | finish_work_before_quiting {object service} : ServiceLifecycle.step s.object .finish_work_before_quiting = some object →
      Service.step s.service .finish_work_before_quiting = some service →
      Steps s .finish_work_before_quiting { s with object, service }
  | delete_db_handle {service} : Service.step s.service .delete_db_handle = some service →
      Steps s .delete_db_handle { s with service }
  | leaves {object} : s.service.main = .deleted → ServiceLifecycle.step s.object .leave = some object →
      Steps s .leaves { s with object, exit := some (ending object 0) }
  | thread {label service} : ofThread label = true → Service.step s.service label = some service →
      Steps s (.thread label) { s with service, exit := if service.server.fault then some .undefined else none }

theorem call_some {s t : State} {op : ServiceLifecycle.Op} {label : Service.Label} (called : call s op label = some t) :
    ∃ object service, ServiceLifecycle.step s.object op = some object ∧ Service.step s.service label = some service ∧
      t = { s with object, service } := by
  obtain ⟨object,lives,called⟩ := Option.bind_eq_some_iff.mp called
  obtain ⟨service,stepped,called⟩ := Option.bind_eq_some_iff.mp called
  exact ⟨object,service,lives,stepped,(Option.some.inj called).symm⟩

theorem call_of {s : State} {op : ServiceLifecycle.Op} {label : Service.Label} {object : ServiceLifecycle.State}
    {service : Service.State} (lives : ServiceLifecycle.step s.object op = some object)
    (stepped : Service.step s.service label = some service) : call s op label = some { s with object, service } := by
  simp [call,lives,stepped]

theorem quit_of_wait {fuel : Nat} {input : Bytes} (ended : (server_service.wait_till_user_quits fuel (.opened input)).isSome) :
    quit ∈ lines input := by
  by_contra absent
  rw [server_service.wait_till_user_quits,never_ends absent] at ended
  cases ended

theorem steps_of_step {s t : State} {label : Label} (one : step s label = some t) : s.exit = none ∧ Steps s label t := by
  obtain ⟨_,open',one⟩ := Option.bind_eq_some_iff.mp one
  refine ⟨by simpa using open',?_⟩
  cases label with
  | start =>
    obtain ⟨object,service,lives,stepped,rfl⟩ := call_some one
    exact .start lives stepped
  | start_server =>
    simp only at one
    split at one
    · rename_i bound
      obtain ⟨object,service,lives,stepped,rfl⟩ := call_some one
      exact .start_server bound lives stepped
    · rename_i taken
      obtain ⟨_,guarded,one⟩ := Option.bind_eq_some_iff.mp one
      obtain ⟨object,lives,one⟩ := Option.bind_eq_some_iff.mp one
      cases Option.some.inj one
      exact .throws (by simpa using taken) (by simpa using guarded) lives
  | quits fuel =>
    obtain ⟨_,guarded,one⟩ := Option.bind_eq_some_iff.mp one
    obtain ⟨object,service,lives,stepped,rfl⟩ := call_some one
    exact .quits (quit_of_wait (by simpa using guarded)) lives stepped
  | finish_work_before_quiting =>
    obtain ⟨object,service,lives,stepped,rfl⟩ := call_some one
    exact .finish_work_before_quiting lives stepped
  | delete_db_handle =>
    obtain ⟨service,stepped,one⟩ := Option.bind_eq_some_iff.mp one
    cases Option.some.inj one
    exact .delete_db_handle stepped
  | leaves =>
    obtain ⟨_,guarded,one⟩ := Option.bind_eq_some_iff.mp one
    obtain ⟨object,lives,one⟩ := Option.bind_eq_some_iff.mp one
    cases Option.some.inj one
    exact .leaves (by simpa using guarded) lives
  | thread label =>
    obtain ⟨_,guarded,one⟩ := Option.bind_eq_some_iff.mp one
    obtain ⟨service,stepped,one⟩ := Option.bind_eq_some_iff.mp one
    cases Option.some.inj one
    exact .thread (by simpa using guarded) stepped

/-! ## Chunks that the parser cannot take -/

/-- A chunk with too few fields was handled. -/
def OutOfRange (labels : List Label) : Prop :=
  ∃ session chunk, .thread (.dispatch (.read session (.data chunk))) ∈ labels ∧ parse_to_client_detail chunk = none

theorem fault_step {s t : Server.State} {input : Server.Input} (one : Server.step s input = some t) :
    t.fault = true ↔ ∃ session chunk task, input = .complete session (.read (.data chunk) task) ∧
      parse_to_client_detail chunk = none := by
  rcases Server.step_cases one with ⟨rfl,rfl⟩ | ⟨rfl,rfl⟩ | ⟨session,completion,outstanding,u,rfl,_,stepped,rfl⟩
  · simp only [Server.step] at one
    split at one
    · cases one
    · simp_all
  · simp only [Server.step] at one
    split at one
    · cases one
    · simp_all
  · rcases (Session.step_cases stepped).2 with ⟨result,task,events,rfl,_,responds,rfl⟩ | ⟨result,task,rfl,_,responds,rfl⟩ |
      ⟨ok,rfl,_,rfl⟩
    · refine iff_of_false Bool.false_ne_true ?_
      rintro ⟨_,chunk,_,same,unparsed⟩
      cases same
      simp [respond,unparsed] at responds
    · refine iff_of_true rfl ?_
      cases result with
      | error => cases responds
      | data chunk => exact ⟨session,chunk,task,rfl,Option.map_eq_none_iff.mp responds⟩
    · refine iff_of_false Bool.false_ne_true ?_
      rintro ⟨_,_,_,same,_⟩
      cases same

/-- A handler that begins faults with its chunk, before it could start a task. -/
theorem fault_dispatch {s t : Service.State} {ready : Service.Ready} (alive : s.server.fault = false)
    (one : Service.step s (.dispatch ready) = some t) : t.server.fault = true ↔
      ∃ session chunk, ready = .read session (.data chunk) ∧ parse_to_client_detail chunk = none := by
  have inputs : ∀ {session chunk task}, ready.input .returned = .complete session (.read (.data chunk) task) →
      ready = .read session (.data chunk) := by
    intro session chunk task same
    cases ready <;> cases same
    rfl
  obtain ⟨_,_,server,stepped,⟨_,rfl⟩ | ⟨insert_SQL,statement,rfl⟩⟩ := Service.dispatch_cases one
  · rw [fault_step stepped]
    constructor
    · rintro ⟨session,chunk,_,same,unparsed⟩
      exact ⟨session,chunk,inputs same,unparsed⟩
    · rintro ⟨session,chunk,rfl,unparsed⟩
      exact ⟨session,chunk,_,rfl,unparsed⟩
  · simp only [alive,false_iff,Bool.false_eq_true]
    rintro ⟨session,chunk,rfl,unparsed⟩
    simp [Service.Ready.insert_SQL,stored,unparsed] at statement

/-- The rest of a handler does not fault: its chunk was parsed. -/
theorem alive_resume {s t : Service.State} (lives : Service.Lives s) (one : Service.step s .resume = some t) :
    t.server.fault = false := by
  cases Service.steps_of_step one with
  | @resumed ready task _ execution server waiting _ stepped =>
    obtain ⟨_,job,_,_,handles⟩ := lives.waits ready task waiting
    generalize job.insert_SQL = insert_SQL at handles
    cases handles with
    | @read session chunk c_detail _ _ parsed _ =>
      rw [← Bool.not_eq_true,fault_step stepped]
      rintro ⟨_,_,_,same,unparsed⟩
      cases same
      rw [parsed] at unparsed
      cases unparsed

/-! ## `main` and its parties -/

/-- The object while `main` is where it is. -/
def objectAt : Service.Main → ServiceLifecycle.State
  | .constructed => ServiceLifecycle.server_service
  | .started => ⟨some true,false,false,.alive⟩
  | .serving => ⟨some true,true,false,.alive⟩
  | .stopped => ⟨some true,true,true,.alive⟩
  | .joined => ⟨some false,true,true,.alive⟩
  | .deleted => ⟨some false,true,true,.alive⟩

/-- How the process can have ended. -/
inductive Ended (s : State) : Exit → Prop where
  | returned : s.service.main = .deleted → Ended s (.returned 0)
  | terminated : s.binds = false → Ended s .terminated
  | undefined : Ended s .undefined

/-- What holds of a process in every reachable state. -/
structure Sound (authorized_clients : Clients) (labels : List Label) (s : State) : Prop where
  service : ∃ own, run Service.step (Service.init authorized_clients) own = some s.service
  object : s.exit = none → s.object = objectAt s.service.main
  bound : s.service.main ≠ .constructed → s.service.main ≠ .started → s.binds = true
  asked : s.service.main = .stopped ∨ s.service.main = .joined ∨ s.service.main = .deleted → quit ∈ lines s.input
  ended : ∀ exit, s.exit = some exit → Ended s exit
  fault : s.service.server.fault = true ↔ OutOfRange labels
  undefined : s.exit = some .undefined ↔ s.service.server.fault = true

theorem outOfRange_snoc (labels : List Label) (label : Label) : OutOfRange (labels ++ [label]) ↔ OutOfRange labels ∨
    ∃ session chunk, label = .thread (.dispatch (.read session (.data chunk))) ∧ parse_to_client_detail chunk = none := by
  constructor
  · rintro ⟨session,chunk,member,unparsed⟩
    rcases List.mem_append.mp member with earlier | last
    · exact .inl ⟨session,chunk,earlier,unparsed⟩
    · exact .inr ⟨session,chunk,(List.mem_singleton.mp last).symm,unparsed⟩
  · rintro (⟨session,chunk,member,unparsed⟩ | ⟨session,chunk,rfl,unparsed⟩)
    · exact ⟨session,chunk,List.mem_append_left _ member,unparsed⟩
    · exact ⟨session,chunk,by simp,unparsed⟩

/-- A step of `main` handles no chunk. -/
theorem outOfRange_main {labels : List Label} {label : Label} (other : ∀ own, label ≠ .thread own) :
    OutOfRange (labels ++ [label]) ↔ OutOfRange labels := by
  rw [outOfRange_snoc]
  refine or_iff_left ?_
  rintro ⟨_,_,same,_⟩
  exact other _ same

theorem Sound.alive {authorized_clients : Clients} {labels : List Label} {s : State} (sound : Sound authorized_clients labels s)
    (open' : s.exit = none) : s.service.server.fault = false := by
  rw [← Bool.not_eq_true,← sound.undefined,open']
  nofun

/-- A call of `main` that the process goes on after. -/
theorem sound_call {authorized_clients : Clients} {labels : List Label} {s : State} {label : Label} {own : Service.Label}
    {object : ServiceLifecycle.State} {service : Service.State} (sound : Sound authorized_clients labels s)
    (open' : s.exit = none) (other : ∀ own, label ≠ .thread own) (stepped : Service.step s.service own = some service)
    (server : service.server = s.service.server) (lives : object = objectAt service.main)
    (bound : service.main ≠ .constructed → service.main ≠ .started → s.binds = true)
    (asked : service.main = .stopped ∨ service.main = .joined ∨ service.main = .deleted → quit ∈ lines s.input) :
    Sound authorized_clients (labels ++ [label]) { s with object, service } := by
  obtain ⟨before,ran⟩ := sound.service
  refine ⟨⟨_,run_snoc_some.mpr ⟨_,ran,stepped⟩⟩,fun _ => lives,bound,asked,?_,?_,?_⟩
  · intro exit gone
    rw [show s.exit = some exit from gone] at open'
    cases open'
  · rw [outOfRange_main other]
    simpa [server] using sound.fault
  · simpa [server] using sound.undefined

/-- A step with which the process ends. -/
theorem sound_exit {authorized_clients : Clients} {labels : List Label} {s : State} {label : Label}
    {object : ServiceLifecycle.State} {exit : Exit} (sound : Sound authorized_clients labels s) (open' : s.exit = none)
    (other : ∀ own, label ≠ .thread own) (ended : Ended { s with object, exit := some exit } exit)
    (defined : exit ≠ .undefined) : Sound authorized_clients (labels ++ [label]) { s with object, exit := some exit } := by
  refine ⟨sound.service,nofun,sound.bound,sound.asked,?_,?_,?_⟩
  · intro other same
    cases Option.some.inj same
    exact ended
  · rw [outOfRange_main other]
    exact sound.fault
  · have alive := sound.alive open'
    simp [defined,alive]

/-- What a step of a thread leaves alone. -/
theorem thread_main {s t : Service.State} {label : Service.Label} (own : ofThread label = true)
    (one : Service.step s label = some t) : t.main = s.main := by
  cases Service.steps_of_step one <;> first | rfl | cases own

theorem fault_thread {s t : Service.State} {label : Service.Label} (lives : Service.Lives s) (own : ofThread label = true)
    (alive : s.server.fault = false) (one : Service.step s label = some t) : t.server.fault = true ↔
      ∃ session chunk, label = .dispatch (.read session (.data chunk)) ∧ parse_to_client_detail chunk = none := by
  cases label with
  | dispatch ready => simpa using fault_dispatch alive one
  | resume => simp [alive_resume lives one]
  | run_returns => cases Service.steps_of_step one; simp [alive]
  | execute_begins _ => cases Service.steps_of_step one; simp [alive]
  | execute_ends _ _ => cases Service.steps_of_step one; simp [alive]
  | _ => cases own

theorem sound_step {authorized_clients : Clients} {labels : List Label} {s t : State} {label : Label}
    (sound : Sound authorized_clients labels s) (one : step s label = some t) :
    Sound authorized_clients (labels ++ [label]) t := by
  obtain ⟨open',steps⟩ := steps_of_step one
  have here := sound.object open'
  cases steps with
  | start lives stepped =>
    cases Service.steps_of_step stepped with
    | start early =>
      rw [here,early] at lives
      refine sound_call sound open' nofun stepped rfl (Option.some.inj lives).symm (fun _ second => absurd rfl second) nofun
  | start_server bound lives stepped =>
    cases Service.steps_of_step stepped with
    | start_server early =>
      rw [here,early] at lives
      exact sound_call sound open' nofun stepped rfl (Option.some.inj lives).symm (fun _ _ => bound) nofun
  | throws taken early lives =>
    rw [here,early] at lives
    cases Option.some.inj lives
    exact sound_exit sound open' nofun (.terminated taken) nofun
  | quits present lives stepped =>
    cases Service.steps_of_step stepped with
    | stop early =>
      rw [here,early] at lives
      refine sound_call sound open' nofun stepped rfl (Option.some.inj lives).symm (fun _ _ => ?_) fun _ => present
      exact sound.bound (by rw [early]; nofun) (by rw [early]; nofun)
  | finish_work_before_quiting lives stepped =>
    cases Service.steps_of_step stepped with
    | finish_work_before_quiting early _ =>
      rw [here,early] at lives
      refine sound_call sound open' nofun stepped rfl (Option.some.inj lives).symm (fun _ _ => ?_) fun _ => sound.asked (.inl early)
      exact sound.bound (by rw [early]; nofun) (by rw [early]; nofun)
  | delete_db_handle stepped =>
    cases Service.steps_of_step stepped with
    | delete_db_handle early =>
      refine sound_call sound open' nofun stepped rfl (by rw [here,early]; rfl) (fun _ _ => ?_)
        fun _ => sound.asked (.inr (.inl early))
      exact sound.bound (by rw [early]; nofun) (by rw [early]; nofun)
  | leaves late lives =>
    rw [here,late] at lives
    cases Option.some.inj lives
    exact sound_exit sound open' nofun (.returned late) nofun
  | @thread label service own stepped =>
    obtain ⟨before,ran⟩ := sound.service
    have same := thread_main own stepped
    have alive := sound.alive open'
    have faults := fault_thread (Service.run_lives ran) own alive stepped
    refine ⟨⟨_,run_snoc_some.mpr ⟨_,ran,stepped⟩⟩,?_,?_,?_,?_,?_,?_⟩
    · intro _
      rw [show s.object = objectAt s.service.main from here,← same]
    · rw [same]
      exact sound.bound
    · rw [same]
      exact sound.asked
    · intro exit ended
      cases fault : service.server.fault <;> simp only [fault] at ended <;> cases ended
      exact .undefined
    · rw [outOfRange_snoc,← sound.fault,alive]
      simpa using faults
    · cases service.server.fault <;> simp

theorem run_sound {authorized_clients : Clients} {input : Bytes} {binds : Bool} {labels : List Label} {s : State}
    (ran : run step ⟨input,binds,ServiceLifecycle.server_service,Service.init authorized_clients,none⟩ labels = some s) :
    Sound authorized_clients labels s := by
  refine run_induction (Sound authorized_clients) ?_ (fun _ _ _ _ _ sound one => sound_step sound one) ran
  refine ⟨⟨[],rfl⟩,fun _ => rfl,fun second => absurd rfl second,by simp [Service.init],nofun,⟨nofun,?_⟩,⟨nofun,nofun⟩⟩
  rintro ⟨_,_,none,_⟩
  cases none

theorem run_input {s t : State} {labels : List Label} (ran : run step s labels = some t) : t.input = s.input := by
  refine run_constant State.input ?_ ran
  intro s label t one
  cases (steps_of_step one).2 <;> rfl

theorem run_binds {s t : State} {labels : List Label} (ran : run step s labels = some t) : t.binds = s.binds := by
  refine run_constant State.binds ?_ ran
  intro s label t one
  cases (steps_of_step one).2 <;> rfl

/-- A process that ended takes no step. -/
theorem run_ended {s t : State} {labels : List Label} {exit : Exit} (ended : s.exit = some exit)
    (ran : run step s labels = some t) : labels = [] ∧ t = s := by
  cases labels with
  | nil => exact ⟨rfl,(Option.some.inj ran).symm⟩
  | cons label rest =>
    obtain ⟨m,one,_⟩ := run_cons_some.mp ran
    rw [(steps_of_step one).1] at ended
    cases ended

/-! ## Up to the end -/

/-- All but the step with which the process ends are steps of the service. -/
theorem run_service {s t : State} {labels : List Label} (ran : run step s labels = some t) :
    ∃ own, run Service.step s.service own = some t.service ∧
      labels.length ≤ own.length + if t.exit = none then 0 else 1 := by
  refine run_induction (fun labels (t : State) => ∃ own, run Service.step s.service own = some t.service ∧
    labels.length ≤ own.length + if t.exit = none then 0 else 1) ⟨[],rfl,by simp⟩ ?_ ran
  rintro labels m label t _ ⟨own,before,few⟩ one
  obtain ⟨open',steps⟩ := steps_of_step one
  rw [open',if_pos rfl] at few
  have together : ∀ {last : Service.Label}, Service.step m.service last = some t.service →
      ∃ own, run Service.step s.service own = some t.service ∧
        (labels ++ [label]).length ≤ own.length + if t.exit = none then 0 else 1 := by
    intro last stepped
    refine ⟨_,run_snoc_some.mpr ⟨_,before,stepped⟩,?_⟩
    simp only [List.length_append,List.length_singleton]
    omega
  cases steps with
  | start _ stepped => exact together stepped
  | start_server _ _ stepped => exact together stepped
  | throws _ _ _ => exact ⟨own,before,by simpa using few⟩
  | quits _ _ stepped => exact together stepped
  | finish_work_before_quiting _ stepped => exact together stepped
  | delete_db_handle stepped => exact together stepped
  | leaves _ _ => exact ⟨own,before,by simpa using few⟩
  | thread _ stepped => exact together stepped

/-- A step that no peer has to take. -/
def Label.alone : Label → Bool
  | .thread (.dispatch _) => false
  | _ => true

/-- After the stop every step of the service is one of the process. -/
theorem lift_stopping {authorized_clients : Clients} {labels : List Label} {s : State} {own : Service.Label}
    {service : Service.State} (sound : Sound authorized_clients labels s) (open' : s.exit = none)
    (stopping : Service.Stopping s.service) (stepped : Service.step s.service own = some service) :
    ∃ label t, step s label = some t ∧ label.alone = true ∧ t.service = service ∧ t.exit = none := by
  have here := sound.object open'
  have alive := sound.alive open'
  have late := stopping.main
  have threads : ofThread own = true → (∀ ready, own ≠ .dispatch ready) →
      ∃ label t, step s label = some t ∧ label.alone = true ∧ t.service = service ∧ t.exit = none := by
    intro mine quiet
    have calm : service.server.fault = false := by
      rw [← Bool.not_eq_true,fault_thread stopping.lives mine alive stepped]
      rintro ⟨_,_,same,_⟩
      exact quiet _ same
    refine ⟨.thread own,{ s with service },?_,?_,rfl,open'⟩
    · simp [step,open',mine,stepped,calm]
    · cases own with
      | dispatch ready => exact absurd rfl (quiet ready)
      | _ => rfl
  cases own with
  | resume => exact threads rfl nofun
  | run_returns => exact threads rfl nofun
  | execute_begins _ => exact threads rfl nofun
  | execute_ends _ _ => exact threads rfl nofun
  | delete_db_handle => exact ⟨.delete_db_handle,{ s with service },by simp [step,open',stepped],rfl,rfl,open'⟩
  | finish_work_before_quiting =>
    have early : s.service.main = .stopped := by cases Service.steps_of_step stepped; assumption
    rw [early] at here
    have lives : ServiceLifecycle.step s.object .finish_work_before_quiting = some (objectAt .joined) := by rw [here]; rfl
    have one := call_of lives stepped
    exact ⟨.finish_work_before_quiting,{ s with object := objectAt .joined, service },by simpa [step,open'] using one,rfl,rfl,open'⟩
  | start => cases Service.steps_of_step stepped with | start early => rw [early] at late; simp at late
  | start_server => cases Service.steps_of_step stepped with | start_server early => rw [early] at late; simp at late
  | stop => cases Service.steps_of_step stepped with | stop early => rw [early] at late; simp at late
  | dispatch ready =>
    have running := (Service.dispatch_cases stepped).2.1
    rw [stopping.stop] at running
    cases running

/-- The process can come to a state without a peer taking a step. -/
def ComesTo (Goal : State → Prop) (s : State) : Prop := Reaches step (fun label : Label => label.alone = true) Goal s

theorem sound_run {authorized_clients : Clients} {labels more : List Label} {s t : State}
    (sound : Sound authorized_clients labels s) (ran : run step s more = some t) : Sound authorized_clients (labels ++ more) t := by
  refine run_induction (fun more t => Sound authorized_clients (labels ++ more) t) (by simpa using sound) ?_ ran
  intro more m label t _ before one
  rw [← List.append_assoc]
  exact sound_step before one

/-- `main` is where it is, and the process has not ended. -/
def At (main : Service.Main) (s : State) : Prop := s.exit = none ∧ s.service.main = main

section
variable {authorized_clients : Clients} {labels : List Label} {s : State}

/-- A call of `main` that the process goes on after. -/
theorem reaches_call {label : Label} {op : ServiceLifecycle.Op} {own : Service.Label} {object : ServiceLifecycle.State}
    {service : Service.State} (open' : s.exit = none) (calls : step s label = call s op own) (alone : label.alone = true)
    (lives : ServiceLifecycle.step s.object op = some object) (stepped : Service.step s.service own = some service) :
    ComesTo (At service.main) s := by
  have there : At service.main { s with object, service } := ⟨open',rfl⟩
  exact (Reaches.here there).before (calls.trans (call_of lives stepped)) alone

theorem reaches_started (sound : Sound authorized_clients labels s) (early : At .constructed s) : ComesTo (At .started) s := by
  obtain ⟨open',early⟩ := early
  have here := sound.object open'
  have lives : ServiceLifecycle.step s.object .start = some (objectAt .started) := by rw [here,early]; rfl
  have stepped : Service.step s.service .start = some { s.service with main := .started, thread := .polling } := by
    simp [Service.step,early]
  exact @reaches_call s .start _ _ _ _ open' (by simp [step,open']) rfl lives stepped

theorem reaches_serving (sound : Sound authorized_clients labels s) (bound : s.binds = true) (early : At .started s) :
    ComesTo (At .serving) s := by
  obtain ⟨open',early⟩ := early
  have here := sound.object open'
  have lives : ServiceLifecycle.step s.object (.start_server true) = some (objectAt .serving) := by rw [here,early]; rfl
  have stepped : Service.step s.service .start_server = some { s.service with main := .serving } := by simp [Service.step,early]
  exact @reaches_call s .start_server _ _ _ _ open' (by simp [step,open',bound]) rfl lives stepped

theorem reaches_stopped (sound : Sound authorized_clients labels s) (present : quit ∈ lines s.input) (early : At .serving s) :
    ComesTo (At .stopped) s := by
  obtain ⟨open',early⟩ := early
  have here := sound.object open'
  obtain ⟨fuel,ended,waited⟩ := wait_for_of_mem present
  have lives : ServiceLifecycle.step s.object .stop = some (objectAt .stopped) := by rw [here,early]; rfl
  have stepped : Service.step s.service .stop = some { s.service with main := .stopped, stop := true } := by
    simp [Service.step,early]
  exact @reaches_call s (.quits fuel) _ _ _ _ open' (by simp [step,open',server_service.wait_till_user_quits,waited]) rfl lives stepped

/-- Once stopped, the parties come to the end, and so does the process. -/
theorem reaches_returned (sound : Sound authorized_clients labels s) (open' : s.exit = none) (stop : s.service.stop = true) :
    ComesTo (fun t => t.exit = some (.returned 0)) s := by
  have stopping : Service.Stopping s.service := by
    obtain ⟨own,ran⟩ := sound.service
    exact ⟨Service.run_ordered ran,Service.run_lives ran,stop⟩
  have deleted : ComesTo (At .deleted) s := by
    obtain ⟨rest,t,ran,alone,⟨_,open'⟩,deleted⟩ := Service.shutdown.realizes_done State.service
      (fun t => (∃ labels, Sound authorized_clients labels t) ∧ t.exit = none) (fun label : Label => label.alone = true)
      (by
        rintro s ⟨⟨labels,sound⟩,open'⟩ stopping more
        obtain ⟨own,service,stepped⟩ := Service.stopping_enabled stopping more
        obtain ⟨label,t,one,alone,rfl,open''⟩ := lift_stopping sound open' stopping stepped
        refine ⟨[label],t,[own],run_singleton_some.mpr one,?_,⟨⟨_,sound_step sound one⟩,open''⟩,
          run_singleton_some.mpr stepped,by simp [Service.shutdown]⟩
        intro other member
        cases List.mem_singleton.mp member
        exact alone)
      ⟨⟨labels,sound⟩,open'⟩ stopping
    exact ⟨rest,t,ran,alone,open',deleted⟩
  refine deleted.on ?_
  rintro rest t ran _ ⟨open'',late⟩
  have here := (sound_run sound ran).object open''
  have lives : ServiceLifecycle.step t.object .leave = some (ServiceLifecycle.destroy (objectAt .deleted)) := by
    rw [here,late]
    rfl
  have one : step t .leaves = some { t with object := ServiceLifecycle.destroy (objectAt .deleted), exit := some (.returned 0) } := by
    simp [step,open'',late,lives,ending,ServiceLifecycle.destroy,objectAt]
  exact Reaches.before (.here rfl) one rfl

/-- Without a server the process ends where the running thread is destroyed. -/
theorem reaches_terminated (sound : Sound authorized_clients labels s) (taken : s.binds = false) (early : At .started s) :
    ComesTo (fun t => t.exit = some .terminated) s := by
  obtain ⟨open',early⟩ := early
  have here := sound.object open'
  have lives : ServiceLifecycle.step s.object (.start_server false) = some (ServiceLifecycle.destroy (objectAt .started)) := by
    rw [here,early]
    rfl
  have one : step s .start_server =
      some { s with object := ServiceLifecycle.destroy (objectAt .started), exit := some .terminated } := by
    simp [step,open',taken,early,lives,ending,ServiceLifecycle.destroy,objectAt]
  exact Reaches.before (.here rfl) one rfl

/-- In every state a server that listens can come to its end once the user quits. -/
theorem reaches_end (sound : Sound authorized_clients labels s) (open' : s.exit = none) (bound : s.binds = true)
    (present : quit ∈ lines s.input) : ComesTo (fun t => t.exit = some (.returned 0)) s := by
  have fromStopped : ∀ {labels : List Label} {t : State}, Sound authorized_clients labels t → t.exit = none →
      t.service.main = .stopped ∨ t.service.main = .joined ∨ t.service.main = .deleted →
      ComesTo (fun t => t.exit = some (.returned 0)) t := by
    intro labels t sound open' late
    obtain ⟨own,ran⟩ := sound.service
    exact reaches_returned sound open' (Service.run_stopped ran late)
  have fromServing : ∀ {labels : List Label} {t : State}, Sound authorized_clients labels t → quit ∈ lines t.input →
      At .serving t → ComesTo (fun t => t.exit = some (.returned 0)) t := by
    intro labels t sound present here
    refine (reaches_stopped sound present here).on ?_
    rintro rest u ran _ ⟨open',late⟩
    exact fromStopped (sound_run sound ran) open' (.inl late)
  have fromStarted : ∀ {labels : List Label} {t : State}, Sound authorized_clients labels t → t.binds = true →
      quit ∈ lines t.input → At .started t → ComesTo (fun t => t.exit = some (.returned 0)) t := by
    intro labels t sound bound present here
    refine (reaches_serving sound bound here).on ?_
    intro rest u ran _ there
    exact fromServing (sound_run sound ran) (by rw [run_input ran]; exact present) there
  cases here : s.service.main with
  | constructed =>
    refine (reaches_started sound ⟨open',here⟩).on ?_
    intro rest t ran _ there
    exact fromStarted (sound_run sound ran) (by rw [run_binds ran]; exact bound) (by rw [run_input ran]; exact present) there
  | started => exact fromStarted sound bound present ⟨open',here⟩
  | serving => exact fromServing sound present ⟨open',here⟩
  | stopped => exact fromStopped sound open' (.inl here)
  | joined => exact fromStopped sound open' (.inr (.inl here))
  | deleted => exact fromStopped sound open' (.inr (.inr here))

/-- Where the endpoint is taken, every state can come to the termination. -/
theorem reaches_unbound (sound : Sound authorized_clients labels s) (open' : s.exit = none) (taken : s.binds = false) :
    ComesTo (fun t => t.exit = some .terminated) s := by
  cases here : s.service.main with
  | constructed =>
    refine (reaches_started sound ⟨open',here⟩).on ?_
    intro rest t ran _ there
    exact reaches_terminated (sound_run sound ran) (by rw [run_binds ran]; exact taken) there
  | started => exact reaches_terminated sound taken ⟨open',here⟩
  | _ =>
    have bound := sound.bound (by rw [here]; nofun) (by rw [here]; nofun)
    rw [taken] at bound
    cases bound

/-- A server that listens goes on until its user quits, unless a chunk breaks it. -/
theorem open_or_broken (sound : Sound authorized_clients labels s) (bound : s.binds = true) (absent : quit ∉ lines s.input) :
    s.exit = none ∨ OutOfRange labels := by
  cases exit : s.exit with
  | none => exact .inl rfl
  | some exit' =>
    cases sound.ended _ exit with
    | returned late => exact absurd (sound.asked (.inr (.inr late))) absent
    | terminated taken =>
      rw [taken] at bound
      cases bound
    | undefined => exact .inr (sound.fault.mp (sound.undefined.mp exit))

/-- After the stop six steps of the service are left, and the end of the process. -/
theorem length_le_of_stop (sound : Sound authorized_clients labels s) (stop : s.service.stop = true) {more : List Label}
    {t : State} (goesOn : run step s more = some t) : more.length ≤ 7 := by
  obtain ⟨own,before⟩ := sound.service
  obtain ⟨rest,after,few⟩ := run_service goesOn
  have bound := Service.stopping_length ⟨Service.run_ordered before,Service.run_lives before,stop⟩ after
  split at few <;> omega

end

/-- What a run of the program has come to, and what it can still come to. -/
structure Outcome (env : Environment) (binds : Endpoint → Bool) (argv : List Bytes) (input : Bytes) (labels : List Label)
    (s : State) : Prop where
  rejected : s.exit = some (.returned 1) ↔ Rejected env argv
  terminated : s.exit = some .terminated → Taken env binds argv
  returned : s.exit = some (.returned 0) → Serves env binds argv ∧ quit ∈ lines input
  undefined : s.exit = some .undefined ↔ OutOfRange labels
  codes : ∀ code, s.exit = some (.returned code) → code ≤ 1
  /-- A server that is not told to quit goes on, unless a chunk broke it. -/
  waits : Serves env binds argv → quit ∉ lines input → s.exit = none ∨ OutOfRange labels
  /-- A taken endpoint ends the process, whatever the user types. -/
  terminates : s.exit = none → Taken env binds argv → ComesTo (fun t => t.exit = some .terminated) s
  /-- A user who quits ends it, whatever the peers did. -/
  returns : s.exit = none → Serves env binds argv → quit ∈ lines input → ComesTo (fun t => t.exit = some (.returned 0)) s
  /-- After the stop the end is near. -/
  prompt : s.service.stop = true → ∀ more t, run step s more = some t → more.length ≤ 7

theorem outcome_of_error {env : Environment} {binds : Endpoint → Bool} {argv : List Bytes} {input : Bytes} {labels : List Label}
    {s : State} {rejection : Rejection} (started : main_start env argv = .error rejection)
    (ran : run step (main env binds argv input) labels = some s) : Outcome env binds argv input labels s := by
  have start : main env binds argv input =
      ⟨input,false,ServiceLifecycle.server_service,Service.init ∅,some (.returned 1)⟩ := by simp [main,started]
  rw [start] at ran
  obtain ⟨rfl,rfl⟩ := run_ended rfl ran
  refine ⟨iff_of_true rfl ((rejected_iff env argv).mp ⟨rejection,started⟩),nofun,nofun,⟨nofun,?_⟩,?_,?_,nofun,nofun,nofun⟩
  · rintro ⟨_,_,none,_⟩
    cases none
  · intro code same
    cases same
    exact le_rfl
  · rintro ⟨listening,other,_⟩ _
    rw [started] at other
    cases other

theorem outcome_of_ok {env : Environment} {binds : Endpoint → Bool} {argv : List Bytes} {input : Bytes} {labels : List Label}
    {s : State} {listening : Listening} (started : main_start env argv = .ok listening)
    (ran : run step (main env binds argv input) labels = some s) : Outcome env binds argv input labels s := by
  have start : main env binds argv input = ⟨input,binds listening.acceptor,ServiceLifecycle.server_service,
      Service.init listening.server.authorized_clients,none⟩ := by simp [main,started]
  rw [start] at ran
  have sound := run_sound ran
  have input' : s.input = input := run_input ran
  have binds' : s.binds = binds listening.acceptor := run_binds ran
  have taken_iff : Taken env binds argv ↔ s.binds = false := by simp [Taken,started,binds']
  have serves_iff : Serves env binds argv ↔ s.binds = true := by simp [Serves,started,binds']
  refine ⟨iff_of_false ?_ ?_,?_,?_,sound.undefined.trans sound.fault,?_,?_,?_,?_,?_⟩
  · intro ended
    cases sound.ended _ ended
  · rw [← rejected_iff,started]
    rintro ⟨_,same⟩
    cases same
  · intro ended
    cases sound.ended _ ended with
    | terminated taken => exact taken_iff.mpr taken
  · intro ended
    cases sound.ended _ ended with
    | returned late =>
      exact ⟨serves_iff.mpr (sound.bound (by rw [late]; nofun) (by rw [late]; nofun)),input' ▸ sound.asked (.inr (.inr late))⟩
  · intro code ended
    cases sound.ended _ ended
    exact Nat.zero_le 1
  · exact fun serves absent => open_or_broken sound (serves_iff.mp serves) (input' ▸ absent)
  · exact fun open' taken => reaches_unbound sound open' (taken_iff.mp taken)
  · exact fun open' serves present => reaches_end sound open' (serves_iff.mp serves) (input' ▸ present)
  · exact fun stop _ _ goesOn => length_le_of_stop sound stop goesOn

theorem outcome {env : Environment} {binds : Endpoint → Bool} {argv : List Bytes} {input : Bytes} {labels : List Label}
    {s : State} (ran : run step (main env binds argv input) labels = some s) : Outcome env binds argv input labels s := by
  cases started : main_start env argv with
  | error rejection => exact outcome_of_error started ran
  | ok listening => exact outcome_of_ok started ran

end SysInfo.ServerProcess
