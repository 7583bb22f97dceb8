import SysInfo.Programs
import SysInfo.Store

/-!
# Client programs, the parties of the server process and its table

The deployment with the server process as its threads run it: a handler that starts a
task waits for it while the clients and the network go on. Each such run is one in
which the handlers run in one piece, so that what the clients were told and what their
reports became in the table can be put together.
-/

namespace SysInfo.Processes
open SysInfo.Text SysInfo.Separated SysInfo.Utils SysInfo.Transition SysInfo.Session SysInfo.SessionRuns SysInfo.PropertyTree
open SysInfo.ServerMain SysInfo.Deployment
open SysInfo.Network (Connection inserted inFlight)
open SysInfo.Programs (Station)

structure State where
  stations : List Station
  connections : List Connection
  service : Service.State

def start (programs : List ClientMain.State) (authorized_clients : Clients) : State :=
  ⟨programs.map fun program => ⟨program,none⟩,[],Service.init authorized_clients⟩

/-- The move is not one of the server. -/
def outside : Programs.Move → Bool
  | .network (.accept _) => false
  | .network (.deliver _ _ _) => false
  | .network (.read_fails _ _) => false
  | .network (.write_completes _ _) => false
  | _ => true

inductive Move where
  | outside (move : Programs.Move)
  | accept (ok : Bool)
  | deliver (i length : Nat)
  | read_fails (i : Nat)
  | write_completes (i : Nat) (ok : Bool)
  | service (label : Service.Label)

/-- The handlers are dispatched with what the connections hold. -/
def step (s : State) : Move → Option State
  | .outside move => do
    guard (outside move = true)
    let t ← Programs.step ⟨s.stations,⟨s.connections,s.service.server⟩⟩ move
    return ⟨t.stations,t.network.connections,s.service⟩
  | .accept ok => do
    guard (ok = false ∨ s.service.server.sessions.length < s.connections.length)
    return { s with service := ← Service.step s.service (.dispatch (.accept ok)) }
  | .deliver i length => do
    let c ← s.connections[i]?
    guard (1 ≤ length ∧ length ≤ max_length ∧ length ≤ c.transit.length)
    let service ← Service.step s.service (.dispatch (.read i (.data (c.transit.take length))))
    return ⟨s.stations,s.connections.set i { c with transit := c.transit.drop length },service⟩
  | .read_fails i => do
    let c ← s.connections[i]?
    guard (c.down = true)
    let service ← Service.step s.service (.dispatch (.read i .error))
    return ⟨s.stations,s.connections.set i { c with transit := [] },service⟩
  | .write_completes i ok => do
    let c ← s.connections[i]?
    guard (ok = true ∨ c.down = true)
    let service ← Service.step s.service (.dispatch (.write i ok))
    let d := { c with replies := c.replies ++ if ok then inFlight i s.service.server else [] }
    return ⟨s.stations,s.connections.set i d,service⟩
  | .service (.dispatch _) => none
  | .service label => (Service.step s.service label).map fun service => { s with service }

/-- What a move does, guards included. -/
inductive Steps (s : State) : Move → State → Prop where
  | outside {move t} : outside move = true → Programs.step ⟨s.stations,⟨s.connections,s.service.server⟩⟩ move = some t →
      Steps s (.outside move) ⟨t.stations,t.network.connections,s.service⟩
  | accept {ok service} : ok = false ∨ s.service.server.sessions.length < s.connections.length →
      Service.step s.service (.dispatch (.accept ok)) = some service → Steps s (.accept ok) { s with service }
  | deliver {i length c service} : s.connections[i]? = some c → 1 ≤ length ∧ length ≤ max_length ∧ length ≤ c.transit.length →
      Service.step s.service (.dispatch (.read i (.data (c.transit.take length)))) = some service →
      Steps s (.deliver i length) ⟨s.stations,s.connections.set i { c with transit := c.transit.drop length },service⟩
  | read_fails {i c service} : s.connections[i]? = some c → c.down = true →
      Service.step s.service (.dispatch (.read i .error)) = some service →
      Steps s (.read_fails i) ⟨s.stations,s.connections.set i { c with transit := [] },service⟩
  | write_completes {i ok c service} : s.connections[i]? = some c → ok = true ∨ c.down = true →
      Service.step s.service (.dispatch (.write i ok)) = some service →
      Steps s (.write_completes i ok) ⟨s.stations,s.connections.set i
        { c with replies := c.replies ++ if ok then inFlight i s.service.server else [] },service⟩
  | service {label service} : (∀ ready, label ≠ .dispatch ready) → Service.step s.service label = some service →
      Steps s (.service label) { s with service }

theorem steps_of_step {s t : State} {move : Move} (one : step s move = some t) : Steps s move t := by
  cases move with
  | outside move =>
    obtain ⟨_,guarded,one⟩ := Option.bind_eq_some_iff.mp one
    obtain ⟨t,moved,one⟩ := Option.bind_eq_some_iff.mp one
    cases Option.some.inj one
    exact .outside (by simpa using guarded) moved
  | accept ok =>
    obtain ⟨_,guarded,one⟩ := Option.bind_eq_some_iff.mp one
    obtain ⟨service,dispatched,one⟩ := Option.bind_eq_some_iff.mp one
    cases Option.some.inj one
    exact .accept (by simpa using guarded) dispatched
  | deliver i length =>
    obtain ⟨c,found,one⟩ := Option.bind_eq_some_iff.mp one
    obtain ⟨_,guarded,one⟩ := Option.bind_eq_some_iff.mp one
    obtain ⟨service,dispatched,one⟩ := Option.bind_eq_some_iff.mp one
    cases Option.some.inj one
    exact .deliver found (by simpa using guarded) dispatched
  | read_fails i =>
    obtain ⟨c,found,one⟩ := Option.bind_eq_some_iff.mp one
    obtain ⟨_,guarded,one⟩ := Option.bind_eq_some_iff.mp one
    obtain ⟨service,dispatched,one⟩ := Option.bind_eq_some_iff.mp one
    cases Option.some.inj one
    exact .read_fails found (by simpa using guarded) dispatched
  | write_completes i ok =>
    obtain ⟨c,found,one⟩ := Option.bind_eq_some_iff.mp one
    obtain ⟨_,guarded,one⟩ := Option.bind_eq_some_iff.mp one
    obtain ⟨service,dispatched,one⟩ := Option.bind_eq_some_iff.mp one
    cases Option.some.inj one
    exact .write_completes found (by simpa using guarded) dispatched
  | service label =>
    cases label with
    | dispatch ready => cases one
    | _ =>
      obtain ⟨service,stepped,rfl⟩ := Option.map_eq_some_iff.mp one
      exact .service (by simp) stepped

/-! ## Handlers in one piece

A handler that waits has taken its chunk off the connection. In the deployment whose
handlers run in one piece it takes it when it returns: until then the chunk is the
first that is on its way. -/

/-- The chunk whose handler waits. -/
def held (thread : Service.Thread) (i : Nat) : Bytes :=
  match thread with
  | .waiting (.read j (.data chunk)) _ => if j = i then chunk else []
  | _ => []

def restore (thread : Service.Thread) (connections : List Connection) : List Connection :=
  connections.mapIdx fun i c => { c with transit := held thread i ++ c.transit }

def inOnePiece (s : State) : Programs.State := ⟨s.stations,⟨restore s.service.thread s.connections,s.service.server⟩⟩

theorem getElem?_restore {thread : Service.Thread} {connections : List Connection} {i : Nat} {c : Connection}
    (found : connections[i]? = some c) :
    (restore thread connections)[i]? = some { c with transit := held thread i ++ c.transit } := by
  simp [restore,List.getElem?_mapIdx,found]

@[simp] theorem length_restore (thread : Service.Thread) (connections : List Connection) :
    (restore thread connections).length = connections.length := List.length_mapIdx

theorem restore_set (thread : Service.Thread) (connections : List Connection) (i : Nat) (c : Connection) :
    restore thread (connections.set i c) = (restore thread connections).set i { c with transit := held thread i ++ c.transit } :=
  List.mapIdx_set

/-- Nothing is on hold. -/
theorem restore_idle {thread : Service.Thread} {connections : List Connection} (idle : ∀ i, held thread i = []) :
    restore thread connections = connections := by
  apply List.ext_getElem?
  intro i
  cases found : connections[i]? with
  | none => simpa using found
  | some c =>
    rw [getElem?_restore found,idle]
    rfl

theorem restore_append {thread : Service.Thread} {connections : List Connection} {c : Connection}
    (idle : held thread connections.length = []) : restore thread (connections ++ [c]) = restore thread connections ++ [c] := by
  simp [restore,List.mapIdx_append,idle]

theorem held_waiting (i : Nat) (chunk : Bytes) (task : Nat) : held (.waiting (.read i (.data chunk)) task) i = chunk := by
  simp [held]

/-- A chunk that was taken off a connection and put on hold is where it was. -/
theorem restore_taken {connections : List Connection} {i length task : Nat} {c : Connection}
    (found : connections[i]? = some c) :
    restore (.waiting (.read i (.data (c.transit.take length))) task)
      (connections.set i { c with transit := c.transit.drop length }) = connections := by
  rw [restore_set,held_waiting]
  apply List.ext_getElem?
  intro j
  by_cases own : i = j
  · subst own
    have inside := (List.getElem?_eq_some_iff.mp found).1
    rw [List.getElem?_set_self (by simpa using inside),List.take_append_drop,found]
  · rw [List.getElem?_set_ne own]
    simp [restore,List.getElem?_mapIdx,held,own]

/-- A chunk on hold that its handler takes in the end is gone. -/
theorem taken_restore {connections : List Connection} {i task : Nat} {chunk : Bytes} {c : Connection}
    (found : connections[i]? = some c) :
    (restore (.waiting (.read i (.data chunk)) task) connections).set i c = connections := by
  apply List.ext_getElem?
  intro j
  by_cases own : i = j
  · subst own
    have inside := (List.getElem?_eq_some_iff.mp found).1
    rw [List.getElem?_set_self (by simpa using inside),found]
  · rw [List.getElem?_set_ne own]
    simp [restore,List.getElem?_mapIdx,held,own]

/-- The clients and the network do not see whether a chunk is on hold. -/
theorem network_outside {thread : Service.Thread} {connections : List Connection} {server : Server.State} {n : Network.State}
    {move : Network.Move} (idle : held thread connections.length = []) (other : outside (.network move) = true)
    (moved : Network.step ⟨connections,server⟩ move = some n) :
    Network.step ⟨restore thread connections,server⟩ move = some ⟨restore thread n.connections,server⟩ ∧ n.server = server := by
  cases move with
  | accept _ => cases other
  | deliver _ _ _ => cases other
  | read_fails _ _ => cases other
  | write_completes _ _ => cases other
  | connect line =>
    cases Option.some.inj moved
    refine ⟨?_,rfl⟩
    rw [restore_append idle]
    rfl
  | write_some i length =>
    obtain ⟨c,found,moved⟩ := Option.bind_eq_some_iff.mp moved
    obtain ⟨_,guarded,moved⟩ := Option.bind_eq_some_iff.mp moved
    cases Option.some.inj moved
    refine ⟨?_,rfl⟩
    simp only [Network.step,getElem?_restore found,restore_set,guarded,Option.bind_eq_bind,Option.bind_some,List.append_assoc]
    rfl
  | read_reply i =>
    obtain ⟨c,found,moved⟩ := Option.bind_eq_some_iff.mp moved
    obtain ⟨_,guarded,moved⟩ := Option.bind_eq_some_iff.mp moved
    obtain ⟨byte,first,moved⟩ := Option.bind_eq_some_iff.mp moved
    cases Option.some.inj moved
    refine ⟨?_,rfl⟩
    simp only [Network.step,getElem?_restore found,restore_set,guarded,first,Option.bind_eq_bind,Option.bind_some]
    rfl
  | goes_down i =>
    obtain ⟨c,found,moved⟩ := Option.bind_eq_some_iff.mp moved
    cases Option.some.inj moved
    refine ⟨?_,rfl⟩
    simp only [Network.step,getElem?_restore found,restore_set]
    rfl

theorem programs_outside {thread : Service.Thread} {stations : List Station} {connections : List Connection}
    {server : Server.State} {t : Programs.State} {move : Programs.Move} (idle : held thread connections.length = [])
    (other : outside move = true) (moved : Programs.step ⟨stations,⟨connections,server⟩⟩ move = some t) :
    Programs.step ⟨stations,⟨restore thread connections,server⟩⟩ move =
      some ⟨t.stations,⟨restore thread t.network.connections,server⟩⟩ ∧ t.network.server = server := by
  cases move with
  | network move =>
    obtain ⟨n,stepped,rfl⟩ := Option.map_eq_some_iff.mp moved
    obtain ⟨same,kept⟩ := network_outside idle other stepped
    exact ⟨by simp [Programs.step,same],kept⟩
  | program p label =>
    obtain ⟨station,found,moved⟩ := Option.bind_eq_some_iff.mp moved
    obtain ⟨_,guarded,moved⟩ := Option.bind_eq_some_iff.mp moved
    obtain ⟨program,stepped,moved⟩ := Option.bind_eq_some_iff.mp moved
    cases Option.some.inj moved
    refine ⟨?_,rfl⟩
    have found : stations[p]? = some station := found
    simp only [Programs.step,found,guarded,stepped,Option.bind_eq_bind,Option.bind_some]
    rfl
  | connects p sample =>
    obtain ⟨station,found,moved⟩ := Option.bind_eq_some_iff.mp moved
    obtain ⟨_,guarded,moved⟩ := Option.bind_eq_some_iff.mp moved
    obtain ⟨n,connected,moved⟩ := Option.bind_eq_some_iff.mp moved
    cases Option.some.inj moved
    obtain ⟨same,kept⟩ := network_outside idle rfl connected
    refine ⟨?_,kept⟩
    have found : stations[p]? = some station := found
    simp only [Programs.step,found,guarded,same,Option.bind_eq_bind,Option.bind_some,length_restore]
    rfl
  | connect_fails p sample reply =>
    obtain ⟨station,found,moved⟩ := Option.bind_eq_some_iff.mp moved
    obtain ⟨_,guarded,moved⟩ := Option.bind_eq_some_iff.mp moved
    obtain ⟨program,stepped,moved⟩ := Option.bind_eq_some_iff.mp moved
    cases Option.some.inj moved
    refine ⟨?_,rfl⟩
    have found : stations[p]? = some station := found
    simp only [Programs.step,found,guarded,stepped,Option.bind_eq_bind,Option.bind_some]
    rfl
  | work_ends p reply =>
    obtain ⟨station,found,moved⟩ := Option.bind_eq_some_iff.mp moved
    obtain ⟨exchange,under_way,moved⟩ := Option.bind_eq_some_iff.mp moved
    obtain ⟨c,connection,moved⟩ := Option.bind_eq_some_iff.mp moved
    obtain ⟨tick,ended,moved⟩ := Option.bind_eq_some_iff.mp moved
    obtain ⟨program,stepped,moved⟩ := Option.bind_eq_some_iff.mp moved
    obtain ⟨n,closed,moved⟩ := Option.bind_eq_some_iff.mp moved
    cases Option.some.inj moved
    obtain ⟨same,kept⟩ := network_outside idle rfl closed
    refine ⟨?_,kept⟩
    have found : stations[p]? = some station := found
    have connection := @getElem?_restore thread connections _ _ connection
    have ended : Programs.tickOf { c with transit := held thread exchange.1 ++ c.transit } reply = some tick := ended
    simp only [Programs.step,found,under_way,connection,ended,stepped,same,Option.bind_eq_bind,Option.bind_some]
    rfl

/-! ## Every run is one of handlers in one piece -/

/-- The service is one of the server program, and a chunk on hold came from a
    connection. -/
structure Sound (authorized_clients : Clients) (s : State) : Prop where
  service : ∃ labels, run Service.step (Service.init authorized_clients) labels = some s.service
  chunk : ∀ ready task, s.service.thread = .waiting ready task → ∃ i chunk, ready = .read i (.data chunk) ∧
    1 ≤ chunk.length ∧ chunk.length ≤ max_length ∧ i < s.connections.length

theorem held_polling {thread : Service.Thread} (polling : thread = .polling) (i : Nat) : held thread i = [] := by
  rw [polling]
  rfl

theorem inOnePiece_idle {s : State} (idle : ∀ i, held s.service.thread i = []) :
    inOnePiece s = ⟨s.stations,⟨s.connections,s.service.server⟩⟩ := by
  unfold inOnePiece
  rw [restore_idle idle]

theorem Sound.unmade {authorized_clients : Clients} {s : State} (sound : Sound authorized_clients s) :
    held s.service.thread s.connections.length = [] := by
  cases thread : s.service.thread with
  | waiting ready task =>
    obtain ⟨i,chunk,rfl,_,_,inside⟩ := sound.chunk ready task thread
    simp only [held]
    rw [if_neg (by omega)]
  | absent => rfl
  | polling => rfl
  | returned => rfl

theorem length_network {n m : Network.State} {moves : List Network.Move} (goesOn : run Network.step n moves = some m) {i : Nat}
    (inside : i < n.connections.length) : i < m.connections.length := by
  refine run_invariant (fun n => i < n.connections.length) ?_ goesOn inside
  intro n move m inside moved
  obtain ⟨d,found,_⟩ := Network.connection_step (Network.steps_of_step moved) (List.getElem?_eq_getElem inside)
  exact (List.getElem?_eq_some_iff.mp found).1

/-- A handler without a statement has run, one with a statement waits. -/
theorem chunk_of_dispatch {service after : Service.State} {ready : Service.Ready}
    (one : Service.step service (.dispatch ready) = some after) {other : Service.Ready} {task : Nat}
    (waiting : after.thread = .waiting other task) :
    other = ready ∧ ∃ insert_SQL, ready.insert_SQL service.server.authorized_clients = some insert_SQL := by
  obtain ⟨polling,_,server,_,⟨_,rfl⟩ | ⟨insert_SQL,statement,rfl⟩⟩ := Service.dispatch_cases one
  · rw [show service.thread = .waiting other task from waiting] at polling
    cases polling
  · cases waiting
    exact ⟨rfl,insert_SQL,statement⟩

theorem sound_step {authorized_clients : Clients} {s t : State} {move : Move} (sound : Sound authorized_clients s)
    (one : step s move = some t) : Sound authorized_clients t := by
  obtain ⟨⟨labels,ran⟩,chunk⟩ := sound
  cases steps_of_step one with
  | outside _ moved =>
    obtain ⟨moves,goesOn⟩ := Programs.network_of_step moved
    refine ⟨⟨labels,ran⟩,?_⟩
    intro ready task waiting
    obtain ⟨i,bytes,same,least,most,inside⟩ := chunk ready task waiting
    exact ⟨i,bytes,same,least,most,length_network goesOn inside⟩
  | accept _ dispatched =>
    refine ⟨⟨_,run_snoc_some.mpr ⟨_,ran,dispatched⟩⟩,?_⟩
    intro ready task waiting
    obtain ⟨_,insert_SQL,statement⟩ := chunk_of_dispatch dispatched waiting
    cases statement
  | @deliver i length c service found cut dispatched =>
    refine ⟨⟨_,run_snoc_some.mpr ⟨_,ran,dispatched⟩⟩,?_⟩
    intro ready task waiting
    obtain ⟨rfl,_⟩ := chunk_of_dispatch dispatched waiting
    have inside := (List.getElem?_eq_some_iff.mp found).1
    refine ⟨i,_,rfl,?_,?_,by simpa using inside⟩
    · rw [List.length_take,Nat.min_eq_left cut.2.2]
      exact cut.1
    · rw [List.length_take,Nat.min_eq_left cut.2.2]
      exact cut.2.1
  | read_fails _ _ dispatched =>
    refine ⟨⟨_,run_snoc_some.mpr ⟨_,ran,dispatched⟩⟩,?_⟩
    intro ready task waiting
    obtain ⟨_,insert_SQL,statement⟩ := chunk_of_dispatch dispatched waiting
    cases statement
  | write_completes _ _ dispatched =>
    refine ⟨⟨_,run_snoc_some.mpr ⟨_,ran,dispatched⟩⟩,?_⟩
    intro ready task waiting
    obtain ⟨_,insert_SQL,statement⟩ := chunk_of_dispatch dispatched waiting
    cases statement
  | service other stepped =>
    refine ⟨⟨_,run_snoc_some.mpr ⟨_,ran,stepped⟩⟩,?_⟩
    cases Service.steps_of_step stepped with
    | start _ => nofun
    | start_server _ => exact chunk
    | stop _ => exact chunk
    | finish_work_before_quiting _ _ => exact chunk
    | delete_db_handle _ => exact chunk
    | handled _ _ _ => exact absurd rfl (other _)
    | spawned _ _ _ => exact absurd rfl (other _)
    | resumed _ _ _ => nofun
    | run_returns _ _ => nofun
    | execute_begins _ => exact chunk
    | execute_ends _ => exact chunk

/-- A handler without a task takes its chunk in one piece. -/
theorem delivered_whole {s : State} {i length : Nat} {c : Connection} {server : Server.State}
    (polling : s.service.thread = .polling) (found : s.connections[i]? = some c)
    (cut : 1 ≤ length ∧ length ≤ max_length ∧ length ≤ c.transit.length)
    (stepped : Server.step s.service.server (.complete i (.read (.data (c.transit.take length)) ⟨.async,.returned⟩)) =
      some server) :
    Network.step (inOnePiece s).network (.deliver i length ⟨.async,.returned⟩) =
      some ⟨s.connections.set i { c with transit := c.transit.drop length },server⟩ := by
  rw [inOnePiece_idle (held_polling polling)]
  simp only [Network.step,found,guard,if_pos cut,stepped,Option.bind_eq_bind,Option.bind_some]
  rfl

theorem written_whole {s : State} {i : Nat} {ok : Bool} {c : Connection} {server : Server.State}
    (polling : s.service.thread = .polling) (found : s.connections[i]? = some c) (may : ok = true ∨ c.down = true)
    (stepped : Server.step s.service.server (.complete i (.write ok)) = some server) :
    Network.step (inOnePiece s).network (.write_completes i ok) = some ⟨s.connections.set i
      { c with replies := c.replies ++ if ok then inFlight i s.service.server else [] },server⟩ := by
  rw [inOnePiece_idle (held_polling polling)]
  simp only [Network.step,found,guard,if_pos may,stepped,Option.bind_eq_bind,Option.bind_some]
  rfl

/-- The chunk on hold can be delivered in one piece, whatever becomes of its task. -/
theorem held_whole {authorized_clients : Clients} {s : State} {i task : Nat} {chunk : Bytes} {execution : Execution}
    {server : Server.State} (sound : Sound authorized_clients s)
    (waiting : s.service.thread = .waiting (.read i (.data chunk)) task)
    (stepped : Server.step s.service.server (.complete i (.read (.data chunk) ⟨.async,execution⟩)) = some server) :
    Network.step (inOnePiece s).network (.deliver i chunk.length ⟨.async,execution⟩) = some ⟨s.connections,server⟩ := by
  obtain ⟨j,other,same,least,most,inside⟩ := sound.chunk _ task waiting
  cases same
  have found := List.getElem?_eq_getElem inside
  have cut : 1 ≤ chunk.length ∧ chunk.length ≤ max_length ∧ chunk.length ≤ (chunk ++ s.connections[i].transit).length := by
    simp [least,most]
  simp only [Network.step,inOnePiece,waiting,getElem?_restore found,held_waiting,guard,if_pos cut,List.take_left,List.drop_left,
    stepped,taken_restore found,Option.bind_eq_bind,Option.bind_some]
  rfl

theorem network_idle {s : State} (idle : ∀ i, held s.service.thread i = []) :
    (inOnePiece s).network = ⟨s.connections,s.service.server⟩ := by
  rw [inOnePiece_idle idle]

/-- A move of the server or of its threads is answered by one of the network with
    handlers in one piece, or by none. -/
theorem answered_inside {authorized_clients : Clients} {s t : State} {move : Move} (sound : Sound authorized_clients s)
    (inside : ∀ other, move ≠ .outside other) (one : step s move = some t) :
    t.stations = s.stations ∧ ∃ moves, run Network.step (inOnePiece s).network moves = some (inOnePiece t).network := by
  cases steps_of_step one with
  | outside _ _ => exact absurd rfl (inside _)
  | @accept ok service room dispatched =>
    obtain ⟨polling,_,server,stepped,⟨_,rfl⟩ | ⟨_,statement,_⟩⟩ := Service.dispatch_cases dispatched
    · refine ⟨rfl,[.accept ok],run_singleton_some.mpr ?_⟩
      have stepped : Server.step s.service.server (.accept ok) = some server := stepped
      rw [network_idle (held_polling polling)]
      simp only [Network.step,guard,if_pos room,stepped,inOnePiece,restore_idle (held_polling polling)]
      rfl
    · cases statement
  | @deliver i length c service found cut dispatched =>
    refine ⟨rfl,?_⟩
    obtain ⟨polling,_,server,stepped,⟨_,rfl⟩ | ⟨insert_SQL,_,rfl⟩⟩ := Service.dispatch_cases dispatched
    · refine ⟨[.deliver i length ⟨.async,.returned⟩],run_singleton_some.mpr ?_⟩
      rw [delivered_whole polling found cut stepped,inOnePiece,restore_idle (held_polling polling)]
    · refine ⟨[],?_⟩
      rw [network_idle (held_polling polling)]
      simp only [inOnePiece,restore_taken found]
      rfl
  | @read_fails i c service found down dispatched =>
    obtain ⟨polling,_,server,stepped,⟨_,rfl⟩ | ⟨_,statement,_⟩⟩ := Service.dispatch_cases dispatched
    · refine ⟨rfl,[.read_fails i ⟨.async,.returned⟩],run_singleton_some.mpr ?_⟩
      have stepped : Server.step s.service.server (.complete i (.read .error ⟨.async,.returned⟩)) = some server := stepped
      rw [network_idle (held_polling polling)]
      simp only [Network.step,found,guard,if_pos down,stepped,inOnePiece,restore_idle (held_polling polling),
        Option.bind_eq_bind,Option.bind_some]
      rfl
    · cases statement
  | @write_completes i ok c service found may dispatched =>
    obtain ⟨polling,_,server,stepped,⟨_,rfl⟩ | ⟨_,statement,_⟩⟩ := Service.dispatch_cases dispatched
    · refine ⟨rfl,[.write_completes i ok],run_singleton_some.mpr ?_⟩
      rw [written_whole polling found may stepped,inOnePiece,restore_idle (held_polling polling)]
    · cases statement
  | @service label service other stepped =>
    refine ⟨rfl,?_⟩
    obtain ⟨labels,ran⟩ := sound.service
    cases Service.steps_of_step stepped with
    | start early =>
      refine ⟨[],?_⟩
      have absent := (Service.run_ordered ran).absent early
      have idle : ∀ i, held s.service.thread i = [] := by
        rw [absent]
        exact fun _ => rfl
      rw [network_idle idle,network_idle fun _ => rfl]
      rfl
    | start_server _ => exact ⟨[],rfl⟩
    | stop _ => exact ⟨[],rfl⟩
    | finish_work_before_quiting _ _ => exact ⟨[],rfl⟩
    | delete_db_handle _ => exact ⟨[],rfl⟩
    | handled _ _ _ => exact absurd rfl (other _)
    | spawned _ _ _ => exact absurd rfl (other _)
    | @resumed ready task insert_SQL execution server waiting _ handled =>
      obtain ⟨i,chunk,rfl,_⟩ := sound.chunk ready task waiting
      refine ⟨[.deliver i chunk.length ⟨.async,execution⟩],run_singleton_some.mpr ?_⟩
      rw [held_whole sound waiting handled,network_idle (held_polling rfl)]
    | run_returns polling _ =>
      refine ⟨[],?_⟩
      rw [network_idle (held_polling polling),network_idle fun _ => rfl]
      rfl
    | execute_begins _ => exact ⟨[],rfl⟩
    | execute_ends _ => exact ⟨[],rfl⟩

/-! ## The pasts of the programs -/

/-- What a move adds to the pasts of the programs: only moves outside of the server do. -/
def remember (s : State) (move : Move) (histories : Nat → Programs.History) : Nat → Programs.History :=
  match move with
  | .outside move => Programs.remember ⟨s.stations,⟨s.connections,s.service.server⟩⟩ move histories
  | _ => histories

def historiesOf (programs : List ClientMain.State) (authorized_clients : Clients) (moves : List Move) : Nat → Programs.History :=
  recorded step remember (start programs authorized_clients) (fun _ => ⟨[],[]⟩) moves

/-- A tick does not see whether a chunk is on hold. -/
theorem remember_inOnePiece (s : State) (move : Programs.Move) (histories : Nat → Programs.History) :
    Programs.remember (inOnePiece s) move histories =
      Programs.remember ⟨s.stations,⟨s.connections,s.service.server⟩⟩ move histories := by
  cases move with
  | work_ends p reply =>
    have same : Programs.ended (inOnePiece s) p reply = Programs.ended ⟨s.stations,⟨s.connections,s.service.server⟩⟩ p reply := by
      unfold Programs.ended
      congr 1
      funext station
      cases station.exchange with
      | none => rfl
      | some exchange =>
        cases found : s.connections[exchange.1]? with
        | none => simp [inOnePiece,restore,List.getElem?_mapIdx,found]
        | some c =>
          have seen := @getElem?_restore s.service.thread _ _ _ found
          simp only [inOnePiece,seen,found,Option.bind_eq_bind,Option.bind_some]
          rfl
    simp only [Programs.remember,same]
  | _ => rfl

/-- The deployment is sound with its threads, and so are the programs of it when every
    handler runs in one piece. -/
structure Follows (authorized_clients : Clients) (programs : List ClientMain.State) (s : State)
    (histories : Nat → Programs.History) : Prop where
  sound : Sound authorized_clients s
  whole : Programs.Sound authorized_clients programs (inOnePiece s) histories

theorem sound_networks {authorized_clients : Clients} {programs : List ClientMain.State} {s : Programs.State} {n : Network.State}
    {histories : Nat → Programs.History} {moves : List Network.Move}
    (sound : Programs.Sound authorized_clients programs s histories) (ran : run Network.step s.network moves = some n) :
    Programs.Sound authorized_clients programs ⟨s.stations,n⟩ histories :=
  run_invariant (fun n => Programs.Sound authorized_clients programs ⟨s.stations,n⟩ histories)
    (fun n _ _ sound moved => @Programs.sound_network _ _ ⟨s.stations,n⟩ _ _ _ sound moved) ran sound

theorem follows_step {authorized_clients : Clients} {programs : List ClientMain.State} {s t : State}
    {histories : Nat → Programs.History} {move : Move} (follows : Follows authorized_clients programs s histories)
    (one : step s move = some t) : Follows authorized_clients programs t (remember s move histories) := by
  obtain ⟨sound,whole⟩ := follows
  refine ⟨sound_step sound one,?_⟩
  by_cases inside : ∃ other, move = .outside other
  · obtain ⟨other,rfl⟩ := inside
    cases steps_of_step one with
    | outside guarded moved =>
      have same := (programs_outside sound.unmade guarded moved).1
      show Programs.Sound _ _ _ (Programs.remember _ _ _)
      rw [← remember_inOnePiece]
      exact Programs.sound_step whole same
  · have inside : ∀ other, move ≠ .outside other := fun other same => inside ⟨other,same⟩
    obtain ⟨stations,commands,network⟩ := answered_inside sound inside one
    have kept := sound_networks whole network
    have same : remember s move histories = histories := by
      cases move with
      | outside other => exact absurd rfl (inside other)
      | _ => rfl
    rw [same]
    have whole : inOnePiece t = ⟨(inOnePiece s).stations,(inOnePiece t).network⟩ := by simp only [inOnePiece,stations]
    rwa [whole]

theorem sound_start (authorized_clients : Clients) (programs : List ClientMain.State) :
    Sound authorized_clients (start programs authorized_clients) := ⟨⟨[],rfl⟩,nofun⟩

theorem run_follows {authorized_clients : Clients} {programs : List ClientMain.State} {moves : List Move} {s : State}
    (ran : run step (start programs authorized_clients) moves = some s) :
    Follows authorized_clients programs s (historiesOf programs authorized_clients moves) :=
  @recorded_invariant _ _ step _ remember (Follows authorized_clients programs)
    (fun _ _ _ _ follows one => follows_step follows one) _ _ _ _ ran
    ⟨sound_start authorized_clients programs,Programs.sound_start authorized_clients programs⟩

theorem run_sound {authorized_clients : Clients} {programs : List ClientMain.State} {moves : List Move} {s : State}
    (ran : run step (start programs authorized_clients) moves = some s) : Sound authorized_clients s := (run_follows ran).sound

theorem run_network {s : Programs.State} {n : Network.State} {moves : List Network.Move}
    (ran : run Network.step s.network moves = some n) :
    run Programs.step s (moves.map Programs.Move.network) = some ⟨s.stations,n⟩ := by
  induction moves generalizing s with
  | nil =>
    cases Option.some.inj ran
    rfl
  | cons move rest ih =>
    obtain ⟨m,one,later⟩ := run_cons_some.mp ran
    rw [List.map_cons,run_cons_some]
    exact ⟨⟨s.stations,m⟩,by simp [Programs.step,one],@ih ⟨s.stations,m⟩ later⟩

/-- A move with the parties of the server is answered by one with handlers in one
    piece, or by none. -/
theorem answered {authorized_clients : Clients} {s t : State} {move : Move} (sound : Sound authorized_clients s)
    (one : step s move = some t) : ∃ moves, run Programs.step (inOnePiece s) moves = some (inOnePiece t) := by
  by_cases inside : ∃ other, move = .outside other
  · obtain ⟨other,rfl⟩ := inside
    cases steps_of_step one with
    | outside guarded moved => exact ⟨[other],run_singleton_some.mpr (programs_outside sound.unmade guarded moved).1⟩
  · obtain ⟨stations,commands,network⟩ := answered_inside sound (fun other same => inside ⟨other,same⟩) one
    refine ⟨_,(run_network network).trans ?_⟩
    simp only [inOnePiece,stations]

theorem run_inOnePiece {authorized_clients : Clients} {programs : List ClientMain.State} {moves : List Move} {s : State}
    (ran : run step (start programs authorized_clients) moves = some s) :
    ∃ commands, run Programs.step (Programs.start programs (Server.start authorized_clients)) commands = some (inOnePiece s) := by
  obtain ⟨commands,_,reached,_,rfl⟩ := run_simulation
    (fun (s : State) whole => Sound authorized_clients s ∧ inOnePiece s = whole) (fun s move t whole related one => by
      obtain ⟨sound,rfl⟩ := related
      obtain ⟨commands,same⟩ := answered sound one
      exact ⟨commands,_,same,sound_step sound one,rfl⟩) ⟨sound_start authorized_clients programs,rfl⟩ ran
  exact ⟨commands,reached⟩

/-- The threads of the server process show the clients nothing new. Whatever they do,
    the programs and the server are those of a run in which every handler runs in one
    piece, and so are the connections, but for a chunk whose handler waits, which is
    still on its way there. -/
theorem processes_refine_programs {authorized_clients : Clients} {programs : List ClientMain.State} {moves : List Move}
    {s : State} (ran : run step (start programs authorized_clients) moves = some s) :
    ∃ commands whole, run Programs.step (Programs.start programs (Server.start authorized_clients)) commands = some whole ∧
      whole.stations = s.stations ∧ whole.network.server = s.service.server ∧
      whole.network.connections = restore s.service.thread s.connections ∧
      whole.network.connections.length = s.connections.length ∧
      (∀ (i : Nat) (c : Connection), s.connections[i]? = some c →
        whole.network.connections[i]? = some { c with transit := held s.service.thread i ++ c.transit }) ∧
      ((∀ i, held s.service.thread i = []) → whole.network.connections = s.connections) := by
  obtain ⟨commands,whole⟩ := run_inOnePiece ran
  exact ⟨commands,_,whole,rfl,rfl,rfl,length_restore _ _,fun _ _ found => getElem?_restore found,restore_idle⟩

/-- A tick of a client up to its task, and the rest of the tick. -/
def testHeld : List Move :=
  [.service .start,.service .start_server,.outside (.program 0 .begins),.outside (.program 0 (.timer .expires)),
    .outside (.connects 0 ClientMain.testSample),.accept true,
    .outside (.network (.write_some 0 (ClientMain.line_to_be_written (lit "jill") ClientMain.testSample).length)),
    .deliver 0 (ClientMain.line_to_be_written (lit "jill") ClientMain.testSample).length]
def testAnswered : List Move :=
  testHeld ++ [.service (.execute_begins 0),.service (.execute_ends 0 .returned),.service .resume,.write_completes 0 true,
    .outside (.network (.read_reply 0)),.outside (.work_ends 0 (7,7,7))]

theorem processes_refine_programs_held : ∃ client s commands whole,
    ClientMain.main_start ClientMain.testArgv (lit "quit\n") .async = some client ∧
    run step (start [client] testClients) testHeld = some s ∧ s.connections.map Connection.transit = [[]] ∧
    run Programs.step (Programs.start [client] (Server.start testClients)) commands = some whole ∧
    whole.stations = s.stations ∧ whole.network.server = s.service.server := by
  have ends : ((ClientMain.main_start ClientMain.testArgv (lit "quit\n") .async).bind fun client =>
      run step (start [client] testClients) testHeld).map (fun s => s.connections.map Connection.transit) = some [[]] := by
    decide +kernel
  obtain ⟨s,reached,taken⟩ := Option.map_eq_some_iff.mp ends
  obtain ⟨client,started,ran⟩ := Option.bind_eq_some_iff.mp reached
  obtain ⟨commands,whole,same,stations,server,_⟩ := processes_refine_programs ran
  exact ⟨client,s,commands,whole,started,ran,taken,same,stations,server⟩

/-! ## The reports of the server -/

/-- The calls of `write_to_db` in the log, each with its session. -/
def written (server : Server.State) : List (Nat × ClientDetail) :=
  server.log.filterMap fun entry => (Event.detail entry.2).map fun c_detail => (entry.1,c_detail)

/-- What the handler of a completion passes to `write_to_db`. -/
def writtenBy (authorized_clients : Clients) : Server.Input → List (Nat × ClientDetail)
  | .complete i (.read result _) => (stored authorized_clients result).toList.map fun c_detail => (i,c_detail)
  | _ => []

/-- The report of the handler that waits for its task. -/
def underWay (service : Service.State) : List (Nat × ClientDetail) :=
  match service.thread with
  | .waiting ready _ => writtenBy service.server.authorized_clients (ready.input .returned)
  | _ => []

/-- The reports that were passed to `write_to_db` so far, in order. -/
def handed (service : Service.State) : List (Nat × ClientDetail) := written service.server ++ underWay service

/-- The reports with their tasks. -/
def filings (service : Service.State) : List ((Nat × ClientDetail) × Service.Job) := (handed service).zip service.tasks

theorem written_step {s t : Server.State} {input : Server.Input} (one : Server.step s input = some t) :
    written t = written s ++ writtenBy s.authorized_clients input := by
  have tagged : ∀ (session : Nat) (events : List Event),
      (events.map fun event => (session,event)).filterMap
        (fun entry => (Event.detail entry.2).map fun c_detail => (entry.1,c_detail)) =
      (events.filterMap Event.detail).map fun c_detail => (session,c_detail) := by
    intro session events
    rw [List.filterMap_map,List.map_filterMap]
    rfl
  unfold written
  rcases Server.step_cases one with ⟨rfl,rfl⟩ | ⟨rfl,rfl⟩ | ⟨session,completion,outstanding,u,rfl,_,stepped,rfl⟩
  · simp [writtenBy,Event.detail]
  · simp [writtenBy]
  · rw [List.filterMap_append,tagged]
    rcases (Session.step_cases stepped).2 with ⟨result,task,events,rfl,_,responds,rfl⟩ | ⟨result,task,rfl,_,responds,rfl⟩ |
      ⟨ok,rfl,_,rfl⟩
    · have shown := respond_detail s.authorized_clients result task
      rw [responds] at shown
      simp [writtenBy,← shown]
    · have shown := respond_detail s.authorized_clients result task
      rw [responds] at shown
      simp [writtenBy,← shown]
    · cases ok <;> simp [writtenBy,on_write,Event.detail]

theorem writtenBy_execution (authorized_clients : Clients) (ready : Service.Ready) (first second : Execution) :
    writtenBy authorized_clients (ready.input first) = writtenBy authorized_clients (ready.input second) := by
  cases ready <;> rfl

theorem writtenBy_statement (authorized_clients : Clients) (ready : Service.Ready) (execution : Execution) :
    (writtenBy authorized_clients (ready.input execution)).map (fun entry => generate_insert_str_for entry.2) =
      (ready.insert_SQL authorized_clients).toList := by
  cases ready with
  | accept _ => rfl
  | write _ _ => rfl
  | read i result =>
    cases kept : stored authorized_clients result <;> simp [writtenBy,Service.Ready.input,Service.Ready.insert_SQL,kept]

/-- The details of a session are those of its reports. -/
theorem inserted_written (i : Nat) (server : Server.State) :
    inserted i server = ((written server).filter fun entry => entry.1 = i).map Prod.snd := by
  unfold inserted written Server.logOf
  induction server.log with
  | nil => rfl
  | cons entry rest ih =>
    by_cases own : entry.1 = i
    · cases shown : Event.detail entry.2 <;> simp [own,shown,ih]
    · cases shown : Event.detail entry.2 <;> simp [own,shown,ih]

theorem map_set_same {Item Shown : Type} (shows : Item → Shown) {items : List Item} {i : Nat} {before after : Item}
    (found : items[i]? = some before) (same : shows after = shows before) : (items.set i after).map shows = items.map shows := by
  have inside := (List.getElem?_eq_some_iff.mp found).1
  apply List.ext_getElem?
  intro j
  by_cases own : i = j
  · subst own
    rw [List.getElem?_map,List.getElem?_map,List.getElem?_set_self inside,found,Option.map_some,Option.map_some,same]
  · rw [List.getElem?_map,List.getElem?_map,List.getElem?_set_ne own]

/-- A handler that begins hands its report on before it waits. -/
theorem handed_dispatch {service after : Service.State} {ready : Service.Ready}
    (tasks : (handed service).map (fun entry => generate_insert_str_for entry.2) = service.tasks.map Service.Job.insert_SQL)
    (one : Service.step service (.dispatch ready) = some after) :
    (handed after).map (fun entry => generate_insert_str_for entry.2) = after.tasks.map Service.Job.insert_SQL := by
  obtain ⟨polling,_,server,stepped,⟨none,rfl⟩ | ⟨insert_SQL,called,rfl⟩⟩ := Service.dispatch_cases one
  · have statement := writtenBy_statement service.server.authorized_clients ready .returned
    rw [none] at statement
    simpa [handed,underWay,polling,written_step stepped,List.map_eq_nil_iff.mp statement] using tasks
  · have statement := writtenBy_statement service.server.authorized_clients ready .returned
    rw [called] at statement
    have before : (written service.server).map (fun entry => generate_insert_str_for entry.2) =
        service.tasks.map Service.Job.insert_SQL := by simpa [handed,underWay,polling] using tasks
    show (written service.server ++ writtenBy service.server.authorized_clients (ready.input .returned)).map _ = _
    rw [List.map_append,before,statement]
    simp

/-- The tasks are those of the reports, in their order. -/
theorem handed_tasks {authorized_clients : Clients} {labels : List Service.Label} {service : Service.State}
    (ran : run Service.step (Service.init authorized_clients) labels = some service) :
    (handed service).map (fun entry => generate_insert_str_for entry.2) = service.tasks.map Service.Job.insert_SQL := by
  refine run_induction (fun _ service =>
    (handed service).map (fun entry => generate_insert_str_for entry.2) = service.tasks.map Service.Job.insert_SQL) rfl ?_ ran
  intro labels service label after before tasks one
  cases Service.steps_of_step one with
  | start early => simpa [handed,underWay,(Service.run_ordered before).absent early] using tasks
  | start_server _ => exact tasks
  | stop _ => exact tasks
  | finish_work_before_quiting _ _ => exact tasks
  | delete_db_handle _ => exact tasks
  | handled _ _ _ => exact handed_dispatch tasks one
  | spawned _ _ _ => exact handed_dispatch tasks one
  | @resumed ready task insert_SQL execution server waiting _ stepped =>
    have same : handed { service with thread := .polling, server } = handed service := by
      simp [handed,underWay,waiting,written_step stepped,writtenBy_execution _ ready execution .returned]
    rw [same]
    exact tasks
  | run_returns polling _ => simpa [handed,underWay,polling] using tasks
  | @execute_begins task insert_SQL found =>
    exact tasks.trans (@map_set_same _ _ Service.Job.insert_SQL _ _ _ ⟨insert_SQL,.executing⟩ found rfl).symm
  | @execute_ends task insert_SQL execution found =>
    exact tasks.trans (@map_set_same _ _ Service.Job.insert_SQL _ _ _ ⟨insert_SQL,.done execution⟩ found rfl).symm

/-- The reports of the handlers that returned are those of the log, and their tasks are
    over. -/
theorem filings_split {authorized_clients : Clients} {labels : List Service.Label} {service : Service.State}
    (ran : run Service.step (Service.init authorized_clients) labels = some service) :
    ∃ rest, filings service = (written service.server).zip (Service.returned service) ++ rest ∧
      (written service.server).length = (Service.returned service).length ∧ ∀ job ∈ Service.returned service, job.finished := by
  have count := congrArg List.length (handed_tasks ran)
  have phase := (Service.run_ordered ran).phase
  simp only [handed,List.length_map,List.length_append] at count
  cases thread : service.thread with
  | waiting ready task =>
    obtain ⟨jobs,job,tasks,_,handles⟩ := (Service.run_lives ran).waits ready task thread
    have returned : Service.returned service = jobs := by rw [Service.returned_of_waiting thread,tasks,List.dropLast_concat]
    generalize job.insert_SQL = insert_SQL at handles
    have one : (underWay service).length = 1 := by
      cases handles with
      | read _ _ parsed authorized => simp [underWay,thread,writtenBy,Service.Ready.input,stored,parsed,authorized]
    rw [one,tasks,List.length_append,List.length_singleton] at count
    have same : (written service.server).length = jobs.length := by omega
    rw [returned]
    refine ⟨(underWay service).zip [job],?_,same,?_⟩
    · rw [filings,handed,tasks,List.zip_append same]
    · intro other member
      by_contra unfinished
      obtain ⟨k,inside,rfl⟩ := List.getElem_of_mem member
      have found : service.tasks[k]? = some jobs[k] := by
        rw [tasks,List.getElem?_append_left inside,List.getElem?_eq_getElem inside]
      obtain ⟨others,_,tasks',rfl,_⟩ := Service.phase_unfinished phase found unfinished
      have lengths := congrArg List.length (tasks.symm.trans tasks')
      simp only [List.length_append,List.length_singleton] at lengths
      omega
  | _ =>
    have idle : ∀ ready task, service.thread ≠ .waiting ready task := by simp [thread]
    have returned : Service.returned service = service.tasks := by simp [Service.returned,thread]
    have none : underWay service = [] := by simp [underWay,thread]
    rw [returned]
    rw [none] at count
    exact ⟨[],by simp [filings,handed,none],by simpa using count,(Service.phase_idle phase idle).1⟩

/-! ## What the clients were told and what the table holds -/

/-- No report that was passed to `write_to_db` ends a literal. -/
def Quoteless (service : Service.State) : Prop := ∀ entry ∈ handed service, Store.Quoteless entry.2

/-- The reports that came over the connection of a tick, and the table. -/
structure Filed (client_key : Bytes) (service : Service.State) (rows : List (List Sql.Value)) (exchange : Programs.Exchange) :
    Prop where
  at_most_once : ((filings service).filter fun filing => filing.1.1 = exchange.connection).length ≤ 1
  success : exchange.tick.sent = some .READ_SUCCESS → ∃ str_time c_detail job execution, str_time <+: exchange.sample.str_time ∧
    Reports.Decodes client_key exchange.sample.memory_percentage.val exchange.sample.cpu_percentage.val
      exchange.sample.no_of_processes.val str_time c_detail ∧
    (filings service).filter (fun filing => filing.1.1 = exchange.connection) = [((exchange.connection,c_detail),job)] ∧
    Service.Job.executed job = some (generate_insert_str_for c_detail,execution) ∧
    (execution = .returned → Statements.rowOf client_key c_detail c_detail.str_dt_time ∈ rows)

/-- The reports whose `execute` ended, with how it ended. -/
def reports (service : Service.State) : List Store.Reported := Store.reported ((handed service).map Prod.snd) service.tasks

theorem mem_reports {service : Service.State} {entry : Nat × ClientDetail} {job : Service.Job} {insert_SQL : Bytes}
    {execution : Execution} (member : (entry,job) ∈ filings service)
    (executed : Service.Job.executed job = some (insert_SQL,execution)) : (entry.2,execution) ∈ reports service := by
  have among : (entry.2,job) ∈ ((handed service).map Prod.snd).zip service.tasks := by
    rw [List.zip_map_left]
    exact List.mem_map.mpr ⟨_,member,rfl⟩
  exact List.mem_filterMap.mpr ⟨_,among,by simp [executed]⟩

theorem row_of_returned {reports : List Store.Reported} {rows : List (List Sql.Value)} {c_detail : ClientDetail}
    (holds : Store.Holds reports rows) (member : (c_detail,Execution.returned) ∈ reports) :
    Statements.rowOf c_detail.client_key c_detail c_detail.str_dt_time ∈ rows := by
  obtain ⟨values,shown⟩ := Option.isSome_iff_exists.mp (holds.taken _ member rfl)
  have same : values = Statements.rowOf c_detail.client_key c_detail c_detail.str_dt_time := by
    unfold Store.row at shown
    split at shown
    · exact (Option.some.inj shown).symm
    · cases shown
  rw [← same]
  refine holds.kept.subset (List.mem_filterMap.mpr ⟨_,List.mem_filter.mpr ⟨member,?_⟩,shown⟩)
  simp

/-- The statement of a task is that of its report. -/
theorem statement_of_filing {service : Service.State}
    (tasks : (handed service).map (fun entry => generate_insert_str_for entry.2) = service.tasks.map Service.Job.insert_SQL)
    {entry : Nat × ClientDetail} {job : Service.Job} (member : (entry,job) ∈ filings service) :
    job.insert_SQL = generate_insert_str_for entry.2 := by
  have count : (handed service).length = service.tasks.length := by simpa using congrArg List.length tasks
  have first : (filings service).map (fun filing => generate_insert_str_for filing.1.2) =
      (handed service).map fun entry => generate_insert_str_for entry.2 := by
    conv_rhs => rw [← List.map_fst_zip count.le,List.map_map]
    rfl
  have second : (filings service).map (fun filing => filing.2.insert_SQL) = service.tasks.map Service.Job.insert_SQL := by
    conv_rhs => rw [← List.map_snd_zip count.ge,List.map_map]
    rfl
  exact (List.map_inj_left.mp (first.trans (tasks.trans second.symm)) _ member).symm

/-- The filings of a connection are as many as its reports. -/
theorem filter_zip {Item Other : Type} {items : List Item} {others : List Other} (count : items.length = others.length)
    (own : Item → Bool) : ((items.zip others).filter fun pair => own pair.1).map Prod.fst = items.filter own := by
  conv_rhs => rw [← List.map_fst_zip count.le,List.filter_map]
  rfl

/-- The handler that waits could go on at once: then its report is in the log. -/
theorem handed_network {authorized_clients : Clients} {s : State} (sound : Sound authorized_clients s) :
    ∃ commands n, run Network.step (inOnePiece s).network commands = some n ∧ written n.server = handed s.service := by
  cases thread : s.service.thread with
  | waiting ready task =>
    obtain ⟨labels,ran⟩ := sound.service
    obtain ⟨i,chunk,rfl,_⟩ := sound.chunk ready task thread
    obtain ⟨_,_,_,_,handles⟩ := (Service.run_lives ran).waits _ task thread
    obtain ⟨server,stepped⟩ := handles.enabled .returned
    refine ⟨[_],_,run_singleton_some.mpr (held_whole sound thread stepped),?_⟩
    simp only [written_step stepped,handed,underWay,thread]
  | _ => exact ⟨[],_,rfl,by simp [inOnePiece,handed,underWay,thread]⟩

/-- A connection over which one report came at most has one filing at most. -/
theorem filings_few {labels : List Service.Label} {authorized_clients : Clients} {service : Service.State} {server : Server.State}
    {i : Nat} (ran : run Service.step (Service.init authorized_clients) labels = some service)
    (whole : written server = handed service) (few : (inserted i server).length ≤ 1) :
    ((filings service).filter fun filing => filing.1.1 = i).length ≤ 1 := by
  have count : (handed service).length = service.tasks.length := by simpa using congrArg List.length (handed_tasks ran)
  have same := congrArg List.length (filter_zip count fun entry => entry.1 = i)
  rw [List.length_map] at same
  have own := congrArg List.length (inserted_written i server)
  rw [whole,List.length_map,← same] at own
  exact own.symm.le.trans few

/-- A report that is in the log, the only one of its connection, has a filing whose task
    is over. -/
theorem filing_of_logged {labels : List Service.Label} {authorized_clients : Clients} {service : Service.State} {i : Nat}
    {c_detail : ClientDetail} (ran : run Service.step (Service.init authorized_clients) labels = some service)
    (logged : inserted i service.server = [c_detail])
    (few : ((filings service).filter fun filing => filing.1.1 = i).length ≤ 1) :
    ∃ job execution, (filings service).filter (fun filing => filing.1.1 = i) = [((i,c_detail),job)] ∧
      Service.Job.executed job = some (generate_insert_str_for c_detail,execution) := by
  obtain ⟨rest,split,lengths,finished⟩ := filings_split ran
  rw [inserted_written] at logged
  obtain ⟨⟨j,other⟩,once,same⟩ := List.map_eq_singleton_iff.mp logged
  have same : other = c_detail := same
  subst same
  have here : j = i := by
    have member : (j,other) ∈ (written service.server).filter fun entry => entry.1 = i := by simp [once]
    simpa using (List.mem_filter.mp member).2
  subst here
  obtain ⟨⟨entry,job⟩,filed,same⟩ := List.map_eq_singleton_iff.mp ((filter_zip lengths fun entry => entry.1 = j).trans once)
  have same : entry = (j,other) := same
  subst same
  have inside : ((j,other),job) ∈ (written service.server).zip (Service.returned service) :=
    (List.mem_filter.mp (filed ▸ List.mem_singleton.mpr rfl)).1
  have member : ((j,other),job) ∈ filings service := by
    rw [split]
    exact List.mem_append_left rest inside
  obtain ⟨execution,done⟩ := finished job (List.of_mem_zip inside).2
  refine ⟨job,execution,?_,by simp [Service.Job.executed,done,statement_of_filing (handed_tasks ran) member]⟩
  rw [split,List.filter_append,filed] at few ⊢
  rw [List.length_append,List.length_singleton] at few
  rw [List.eq_nil_of_length_eq_zero (by omega : (rest.filter _).length = 0)]
  rfl

theorem filed_of_reported {authorized_clients : Clients} {boost : Boost} {clients : Ptree} {client_key : Bytes}
    {labels : List Service.Label} {service : Service.State} {server : Server.State} {exchange : Programs.Exchange}
    {rows : List (List Sql.Value)} (ran : run Service.step (Service.init authorized_clients) labels = some service)
    (whole : written server = handed service) (now : Programs.Reported boost clients client_key service.server exchange)
    (later : Programs.Reported boost clients client_key server exchange) (holds : Store.Holds (reports service) rows) :
    Filed client_key service rows exchange := by
  have few : ((filings service).filter fun filing => filing.1.1 = exchange.connection).length ≤ 1 := by
    refine filings_few ran whole ?_
    rcases later.at_most_once with none | ⟨_,_,c_detail,_,once,_⟩
    · simp [none]
    · simp [once]
  refine ⟨few,?_⟩
  intro told
  obtain ⟨_,str_time,c_detail,start,once,decodes⟩ := now.success told
  obtain ⟨job,execution,only,executed⟩ := filing_of_logged ran once few
  refine ⟨str_time,c_detail,job,execution,start,decodes,only,executed,?_⟩
  rintro rfl
  rw [← decodes.client_key]
  have member : ((exchange.connection,c_detail),job) ∈ filings service :=
    (List.mem_filter.mp (only ▸ List.mem_singleton.mpr rfl)).1
  exact row_of_returned holds (mem_reports member executed)

/-- A connection is that of a tick whether or not a chunk of it is on hold. -/
theorem connected_of_whole {s : State} {client_key : Bytes} {exchange : Programs.Exchange}
    (connected : Programs.Connected (inOnePiece s).network client_key exchange) :
    Programs.Connected ⟨s.connections,s.service.server⟩ client_key exchange := by
  obtain ⟨c,⟨found,line⟩,down,sent⟩ := connected
  have inside := (List.getElem?_eq_some_iff.mp found).1
  simp only [inOnePiece,length_restore] at inside
  have seen := @getElem?_restore s.service.thread _ _ _ (List.getElem?_eq_getElem inside)
  cases Option.some.inj (found.symm.trans seen)
  exact ⟨_,⟨List.getElem?_eq_getElem inside,line⟩,down,sent⟩

/-- However the threads of the server process, the client programs, the network and any
    other peers take turns, and whatever the database does with reports without a
    quote: the rows of the table are those of the reports, in the order in which the
    chunks were handled; each connected tick of a client has one report at most, and one
    that was told success has exactly one, with its key and its numbers, whose row is in
    the table unless its `execute` threw. -/
theorem rows_of_ticks {env : Environment} {program typed server_config db_settings : Bytes} {listening : Listening}
    {programs : List ClientMain.State} {moves : List Move} {s : State} {database : Sql.Database Statements.client_info}
    {effects : List Sql.Effect}
    (started : main_start env [program,typed,server_config,db_settings] = .ok listening)
    (ran : run step (start programs listening.server.authorized_clients) moves = some s) (quoteless : Quoteless s.service)
    (performed : Store.Performs database (s.service.tasks.filterMap Service.Job.executed) effects) :
    ∃ pt clients rows, env.read_xml server_config = some pt ∧ get_child env.boost pt (lit "clients") = some clients ∧
      effects = rows.map .row ∧ Store.Holds (reports s.service) rows ∧
      ∀ p program station, programs[p]? = some program → s.stations[p]? = some station → separator ∉ program.client_key →
        Programs.Accounted env.boost clients ⟨s.connections,s.service.server⟩ program station
          (historiesOf programs listening.server.authorized_clients moves p) ∧
        ∀ exchange ∈ (historiesOf programs listening.server.authorized_clients moves p).made,
          Filed program.client_key s.service rows exchange := by
  obtain ⟨pt,authorized_clients,read,loads,server⟩ := started_loads started
  obtain ⟨clients,tree,keys⟩ := mem_loaded loads
  have same : listening.server.authorized_clients = authorized_clients := by rw [server]; rfl
  rw [same] at ran ⊢
  obtain ⟨sound,whole⟩ := run_follows ran
  obtain ⟨labels,serves⟩ := sound.service
  obtain ⟨commands,n,goesOn,written⟩ := handed_network sound
  have tasks : s.service.tasks.map Service.Job.insert_SQL = ((handed s.service).map Prod.snd).map generate_insert_str_for := by
    rw [List.map_map]
    exact (handed_tasks serves).symm
  rw [← Store.calls_reported tasks] at performed
  have plain : ∀ report ∈ reports s.service, Store.Quoteless report.1 := by
    intro report member
    obtain ⟨entry,among,same⟩ := List.mem_map.mp ((Store.reported_sublist _ _).subset (List.mem_map_of_mem member))
    rw [← same]
    exact quoteless entry among
  obtain ⟨rows,effects,keeps,taken⟩ := Store.keeps_calls plain performed
  have holds := Store.holds_of_keeps keeps taken
  refine ⟨pt,clients,rows,read,tree,effects,holds,?_⟩
  intro p program station given found separate
  have now := Programs.accounted keys whole given found separate
  have later := Programs.accounted keys (sound_networks whole goesOn) given found separate
  refine ⟨⟨now.ran,now.ticks,now.increasing,fun exchange member => connected_of_whole (now.connected exchange member),
    now.reported⟩,?_⟩
  intro exchange member
  exact filed_of_reported serves written (now.reported exchange member) (later.reported exchange member) holds

/-- The tick was told success, and its row is the one of the table. -/
theorem rows_of_ticks_test : ∃ listening client s station clients history rows,
    main_start testEnvironment [lit "sys_info_server",lit "8080",lit "server_config.xml",lit "db_settings.xml"] = .ok listening ∧
    run step (start [client] listening.server.authorized_clients) testAnswered = some s ∧ s.stations[0]? = some station ∧
    historiesOf [client] listening.server.authorized_clients testAnswered 0 = history ∧
    history.made.map (fun exchange => (exchange.connection,exchange.tick.sent)) = [(0,some .READ_SUCCESS)] ∧
    Programs.Accounted firstChild clients ⟨s.connections,s.service.server⟩ client station history ∧
    (∀ exchange ∈ history.made, Filed client.client_key s.service rows exchange) ∧ rows = [Store.testRow] := by
  have ends : ((main_start testEnvironment
      [lit "sys_info_server",lit "8080",lit "server_config.xml",lit "db_settings.xml"]).toOption.bind fun listening =>
      (ClientMain.main_start ClientMain.testArgv (lit "quit\n") .async).bind fun client =>
      (run step (start [client] listening.server.authorized_clients) testAnswered).bind fun s => s.stations[0]?.map fun _ =>
      (s.service.tasks,(handed s.service).map Prod.snd,
        (historiesOf [client] listening.server.authorized_clients testAnswered 0).made.map
          fun exchange => (exchange.connection,exchange.tick.sent))) =
      some ([⟨generate_insert_str_for Store.testDetail,.done .returned⟩],[Store.testDetail],[(0,some .READ_SUCCESS)]) := by
    decide +kernel
  obtain ⟨listening,started,reached⟩ := Option.bind_eq_some_iff.mp ends
  obtain ⟨client,client_started,reached⟩ := Option.bind_eq_some_iff.mp reached
  obtain ⟨s,ran,reached⟩ := Option.bind_eq_some_iff.mp reached
  obtain ⟨station,found,shown⟩ := Option.map_eq_some_iff.mp reached
  obtain ⟨tasks,details,made⟩ : _ ∧ _ ∧ _ := by simpa only [Prod.mk.injEq] using shown
  have started := ok_of_toOption started
  have quoteless : Quoteless s.service := by
    intro entry member
    have among := @List.mem_map_of_mem _ _ _ _ Prod.snd member
    rw [details,List.mem_singleton] at among
    rw [among]
    decide
  have calls : s.service.tasks.filterMap Service.Job.executed = [(generate_insert_str_for Store.testDetail,.returned)] := by
    rw [tasks]
    rfl
  have performed := Store.performs_testDetail
  rw [← calls] at performed
  obtain ⟨pt,clients,rows,_,_,same,_,accounts⟩ := rows_of_ticks started ran quoteless performed
  have plain : separator ∉ client.client_key := by
    cases Option.some.inj client_started
    decide
  obtain ⟨account,filed⟩ := accounts 0 client station rfl found plain
  have only : [Store.testRow] = rows := Store.row_injective same
  exact ⟨listening,client,s,station,clients,_,rows,started,ran,found,rfl,made,account,filed,only.symm⟩

end SysInfo.Processes
