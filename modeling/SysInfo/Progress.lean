import SysInfo.Processes

/-!
# Ticks come to their end

A tick that got a connection waits for a byte. As long as `main` serves, steps of the
network, of the service thread and of its tasks lead from every state of the deployment
to that byte, whatever the threads are in the middle of, unless the connection is down
or the server broke.
-/

namespace SysInfo.Processes
open SysInfo.Text SysInfo.Utils SysInfo.Transition SysInfo.Session SysInfo.SessionRuns
open SysInfo.Network (Connection inFlight)
open SysInfo.ClientMain (Sample line_to_be_written)

/-- The move takes the exchange on a connection further, or ends what the threads of the
    server are in. -/
def serves (i : Nat) : Move → Bool
  | .outside (.network move) => move.serves i
  | .accept ok => ok
  | .deliver j _ => j = i
  | .write_completes j _ => j = i
  | .service label => label.finishes
  | _ => false

/-! ## What such moves leave alone -/

structure Kept (s t : State) : Prop where
  stations : t.stations = s.stations
  main : t.service.main = s.service.main
  downs : t.connections.map Connection.down = s.connections.map Connection.down

theorem kept_dispatch {service after : Service.State} {ready : Service.Ready}
    (one : Service.step service (.dispatch ready) = some after) : after.main = service.main := by
  obtain ⟨_,_,_,_,⟨_,rfl⟩ | ⟨_,_,rfl⟩⟩ := Service.dispatch_cases one <;> rfl

theorem kept_finishes {service after : Service.State} {label : Service.Label} (finishes : label.finishes = true)
    (one : Service.step service label = some after) : after.main = service.main := by
  cases Service.steps_of_step one <;> first | rfl | cases finishes

theorem kept_outside {connections : List Connection} {server : Server.State} {n : Network.State} {move : Network.Move} {i : Nat}
    (own : move.serves i = true) (other : outside (.network move) = true)
    (moved : Network.step ⟨connections,server⟩ move = some n) :
    n.connections.map Connection.down = connections.map Connection.down := by
  cases move with
  | write_some j length =>
    obtain ⟨c,found,moved⟩ := Option.bind_eq_some_iff.mp moved
    obtain ⟨_,_,moved⟩ := Option.bind_eq_some_iff.mp moved
    cases Option.some.inj moved
    exact map_set_same Connection.down found rfl
  | read_reply j =>
    obtain ⟨c,found,moved⟩ := Option.bind_eq_some_iff.mp moved
    obtain ⟨_,_,moved⟩ := Option.bind_eq_some_iff.mp moved
    obtain ⟨_,_,moved⟩ := Option.bind_eq_some_iff.mp moved
    cases Option.some.inj moved
    exact map_set_same Connection.down found rfl
  | deliver _ _ _ => cases other
  | write_completes _ _ => cases other
  | _ => cases own

theorem kept_step {i : Nat} {s t : State} {move : Move} (own : serves i move = true) (one : step s move = some t) :
    Kept s t := by
  cases steps_of_step one with
  | @outside move t other moved =>
    cases move with
    | network move =>
      obtain ⟨n,stepped,rfl⟩ := Option.map_eq_some_iff.mp moved
      exact ⟨rfl,rfl,kept_outside own other stepped⟩
    | _ => cases own
  | accept _ dispatched => exact ⟨rfl,kept_dispatch dispatched,rfl⟩
  | deliver found _ dispatched => exact ⟨rfl,kept_dispatch dispatched,map_set_same Connection.down found rfl⟩
  | read_fails _ _ _ => cases own
  | write_completes found _ dispatched => exact ⟨rfl,kept_dispatch dispatched,map_set_same Connection.down found rfl⟩
  | service _ stepped => exact ⟨rfl,kept_finishes own stepped,rfl⟩

theorem run_kept {i : Nat} {s t : State} {moves : List Move} (own : ∀ move ∈ moves, serves i move = true)
    (ran : run step s moves = some t) : Kept s t := by
  refine run_invariant_on (fun move => serves i move = true) (Kept s) ?_ own ran ⟨rfl,rfl,rfl⟩
  intro m move t own kept one
  obtain ⟨stations,main,downs⟩ := kept_step own one
  exact ⟨stations.trans kept.stations,main.trans kept.main,downs.trans kept.downs⟩

/-! ## A thread that is free -/

section
variable {programs : List ClientMain.State} {authorized_clients : Clients}

/-- A state of the deployment in which `main` serves. -/
def Serving (programs : List ClientMain.State) (authorized_clients : Clients) (s : State) : Prop :=
  (∃ moves, run step (start programs authorized_clients) moves = some s) ∧ s.service.main = .serving

/-- The thread of the service is between two handlers. -/
def Free (programs : List ClientMain.State) (authorized_clients : Clients) (s : State) : Prop :=
  Serving programs authorized_clients s ∧ s.service.thread = .polling

theorem Serving.sound {s : State} (serving : Serving programs authorized_clients s) : Sound authorized_clients s := by
  obtain ⟨⟨moves,ran⟩,_⟩ := serving
  exact run_sound ran

theorem Serving.on {i : Nat} {s t : State} {moves : List Move} (serving : Serving programs authorized_clients s)
    (own : ∀ move ∈ moves, serves i move = true) (ran : run step s moves = some t) :
    Serving programs authorized_clients t := by
  obtain ⟨⟨before,reached⟩,main⟩ := serving
  exact ⟨⟨before ++ moves,run_append_some.mpr ⟨s,reached,ran⟩⟩,(run_kept own ran).main.trans main⟩

/-- The service was not stopped. -/
theorem Serving.running {s : State} (serving : Serving programs authorized_clients s) : s.service.stop = false := by
  obtain ⟨labels,ran⟩ := serving.sound.service
  rw [← Bool.not_eq_true]
  intro stop
  rcases (Service.run_lives ran).stopped stop with late | late | late <;> rw [serving.2] at late <;> cases late

/-- A run of the threads is one of the deployment. -/
theorem run_service {s : State} {labels : List Service.Label} {service : Service.State}
    (finishes : ∀ label ∈ labels, label.finishes = true) (ran : run Service.step s.service labels = some service) :
    run step s (labels.map Move.service) = some { s with service } := by
  induction labels generalizing s with
  | nil =>
    cases Option.some.inj ran
    rfl
  | cons label rest ih =>
    obtain ⟨m,one,later⟩ := run_cons_some.mp ran
    have own := finishes label List.mem_cons_self
    have stepped : step s (.service label) = some { s with service := m } := by
      cases label with
      | dispatch _ => cases own
      | _ => simp only [step,one,Option.map_some]
    rw [List.map_cons,run_cons_some]
    exact ⟨_,stepped,@ih ⟨s.stations,s.connections,m⟩ (fun other member => finishes other (List.mem_cons_of_mem label member)) later⟩

/-- A handler can begin. -/
theorem Free.dispatch {s : State} (free : Free programs authorized_clients s) {ready : Service.Ready} {server : Server.State}
    (stepped : Server.step s.service.server (ready.input .returned) = some server) :
    ∃ service, Service.step s.service (.dispatch ready) = some service := by
  have possible : ready.possible s.service.main = true := by
    rw [free.1.2]
    cases ready <;> rfl
  have guard : s.service.thread = .polling ∧ s.service.stop = false ∧ ready.possible s.service.main = true :=
    ⟨free.2,free.1.running,possible⟩
  exact ⟨_,by simp only [Service.step,Service.dispatch,if_pos guard,stepped]; rfl⟩

/-! ## Accepting -/

theorem line_ne_nil (client_key : Bytes) (sample : Sample) : line_to_be_written client_key sample ≠ [] := by
  rw [Deployment.line_of_sample]
  simp [Reports.line]

/-- The connection of a tick that is not over. -/
theorem Serving.carried {s : State} {p i : Nat} {station : Programs.Station} {sample : Sample}
    (serving : Serving programs authorized_clients s) (found : s.stations[p]? = some station)
    (under_way : station.exchange = some (i,sample)) :
    ∃ c, s.connections[i]? = some c ∧ (inOnePiece s).network.connections[i]? =
      some { c with transit := held s.service.thread i ++ c.transit } ∧ c.line ≠ [] := by
  obtain ⟨⟨moves,ran⟩,_⟩ := serving
  obtain ⟨program,_,tells⟩ := (run_follows ran).whole.tells p station found
  obtain ⟨c,there,line⟩ := tells.under_way i sample under_way
  have inside := (List.getElem?_eq_some_iff.mp there).1
  simp only [inOnePiece,length_restore] at inside
  have here := List.getElem?_eq_getElem inside
  have seen := @getElem?_restore s.service.thread _ _ _ here
  cases Option.some.inj (there.symm.trans seen)
  refine ⟨_,here,seen,?_⟩
  rw [show s.connections[i].line = _ from line]
  exact line_ne_nil _ _

theorem Free.exchanging {s : State} {p i : Nat} {station : Programs.Station} {sample : Sample}
    (free : Free programs authorized_clients s) (found : s.stations[p]? = some station)
    (under_way : station.exchange = some (i,sample)) (accepted : i < s.service.server.sessions.length) :
    Network.Exchanging authorized_clients i (inOnePiece s).network := by
  obtain ⟨c,_,seen,line⟩ := free.1.carried found under_way
  obtain ⟨⟨moves,ran⟩,_⟩ := free.1
  obtain ⟨commands,reached⟩ := (run_follows ran).whole.network
  exact ⟨Network.run_sound reached,accepted,_,seen,line⟩

/-- A program whose connection brought a byte, or is down, can end its tick. -/
theorem Free.work_ends {s : State} {p i : Nat} {station : Programs.Station} {sample : Sample} {c : Connection}
    (free : Free programs authorized_clients s) (found : s.stations[p]? = some station)
    (under_way : station.exchange = some (i,sample)) (connection : s.connections[i]? = some c)
    (settled : c.down = true ∨ c.answer ≠ none) (reply : Byte × Byte × Byte) :
    (step s (.outside (.work_ends p reply))).isSome := by
  obtain ⟨⟨⟨moves,ran⟩,_⟩,polling⟩ := free
  obtain ⟨commands,reached⟩ := (run_follows ran).whole.network
  rw [network_idle (held_polling polling)] at reached
  obtain ⟨tick,ended⟩ := Programs.tickOf_isSome reached connection settled reply
  obtain ⟨commands,whole⟩ := run_inOnePiece ran
  rw [inOnePiece_idle (held_polling polling)] at whole
  have ends := Programs.work_ends_enabled (Programs.run_atWork whole) found under_way connection ended
  obtain ⟨t,moved⟩ := Option.isSome_iff_exists.mp ends
  simp [step,outside,moved]

end

end SysInfo.Processes
