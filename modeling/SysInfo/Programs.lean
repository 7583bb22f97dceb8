import SysInfo.Deployment

/-!
# Client programs and their server

Any number of client programs beside peers of every other kind, the network between
them, and the server program with the map that it loaded. The work of a tick makes a
connection of its own, and ends with the byte that it read or once the connection is
lost.
-/

namespace SysInfo.Programs
open SysInfo.Text SysInfo.Separated SysInfo.Utils SysInfo.Transition SysInfo.Session SysInfo.PropertyTree
open SysInfo.ServerMain SysInfo.Deployment
open SysInfo.Network (Connection Told inserted)
open SysInfo.ClientMain (Sample line_to_be_written ticksOf)

/-- A client program, and while its tick is connected the number of the connection. -/
structure Station where
  program : ClientMain.State
  exchange : Option (Nat × Sample)

structure State where
  stations : List Station
  network : Network.State

/-- The programs before their first tick, and a server that nobody connected to. -/
def start (programs : List ClientMain.State) (server : Server.State) : State :=
  ⟨programs.map fun program => ⟨program,none⟩,⟨[],server⟩⟩

/-- The reply with the byte; the server writes no other bytes. -/
def replyOf (byte : Byte) : Option Reply :=
  [Reply.READ_SUCCESS,.READ_FAILURE,.NOT_AUTHORIZED].find? fun reply => reply.wire = [byte]

/-- What a tick met on its connection: the byte that it read, or else the exception of
    `write` or `read` once the connection is down. -/
def tickOf (c : Connection) (reply : Byte × Byte × Byte) : Option Client.Tick :=
  match c.answer with
  | some byte => (replyOf byte).map fun answer => ⟨true,true,some answer,reply⟩
  | none => if c.down then some ⟨true,c.unwritten = [],none,reply⟩ else none

/-- A move of the network may be one of a tick at work, of the server or of any other
    peer. -/
inductive Move where
  | network (move : Network.Move)
  | program (p : Nat) (label : ClientMain.Label)
  | connects (p : Nat) (sample : Sample)
  | connect_fails (p : Nat) (sample : Sample) (reply : Byte × Byte × Byte)
  | work_ends (p : Nat) (reply : Byte × Byte × Byte)

def step (s : State) : Move → Option State
  | .network move => (Network.step s.network move).map fun network => { s with network }
  | .program p label => do
    let station ← s.stations[p]?
    guard ((ticksOf [label]).isEmpty = true)
    let program ← ClientMain.step station.program label
    return { s with stations := s.stations.set p { station with program } }
  | .connects p sample => do
    let station ← s.stations[p]?
    guard (station.exchange = none ∧ station.program.begun = true ∧ station.program.client.timer.phase = .working)
    let network ← Network.step s.network (.connect (line_to_be_written station.program.client_key sample))
    return ⟨s.stations.set p { station with exchange := some (s.network.connections.length,sample) },network⟩
  | .connect_fails p sample reply => do
    let station ← s.stations[p]?
    guard (station.exchange = none)
    let program ← ClientMain.step station.program (.periodic_work sample ⟨false,false,none,reply⟩)
    return { s with stations := s.stations.set p { station with program } }
  | .work_ends p reply => do
    let station ← s.stations[p]?
    let exchange ← station.exchange
    let c ← s.network.connections[exchange.1]?
    let tick ← tickOf c reply
    let program ← ClientMain.step station.program (.periodic_work exchange.2 tick)
    let network ← Network.step s.network (.goes_down exchange.1)
    return ⟨s.stations.set p ⟨program,none⟩,network⟩

/-- What a move does, guards included. -/
inductive Steps (s : State) : Move → State → Prop where
  | network {move network} : Network.step s.network move = some network → Steps s (.network move) { s with network }
  | program {p label station program} : s.stations[p]? = some station → ticksOf [label] = [] →
      ClientMain.step station.program label = some program →
      Steps s (.program p label) { s with stations := s.stations.set p { station with program } }
  | connects {p sample station network} : s.stations[p]? = some station → station.exchange = none →
      station.program.begun = true ∧ station.program.client.timer.phase = .working →
      Network.step s.network (.connect (line_to_be_written station.program.client_key sample)) = some network →
      Steps s (.connects p sample)
        ⟨s.stations.set p { station with exchange := some (s.network.connections.length,sample) },network⟩
  | connect_fails {p sample reply station program} : s.stations[p]? = some station → station.exchange = none →
      ClientMain.step station.program (.periodic_work sample ⟨false,false,none,reply⟩) = some program →
      Steps s (.connect_fails p sample reply) { s with stations := s.stations.set p { station with program } }
  | work_ends {p reply station i sample c tick program network} : s.stations[p]? = some station →
      station.exchange = some (i,sample) → s.network.connections[i]? = some c → tickOf c reply = some tick →
      ClientMain.step station.program (.periodic_work sample tick) = some program →
      Network.step s.network (.goes_down i) = some network →
      Steps s (.work_ends p reply) ⟨s.stations.set p ⟨program,none⟩,network⟩

theorem steps_of_step {s t : State} {move : Move} (one : step s move = some t) : Steps s move t := by
  cases move with
  | network move =>
    obtain ⟨network,moved,rfl⟩ := Option.map_eq_some_iff.mp one
    exact .network moved
  | program p label =>
    obtain ⟨station,found,one⟩ := Option.bind_eq_some_iff.mp one
    obtain ⟨_,guarded,one⟩ := Option.bind_eq_some_iff.mp one
    obtain ⟨program,stepped,one⟩ := Option.bind_eq_some_iff.mp one
    cases Option.some.inj one
    exact .program found (by simpa using guarded) stepped
  | connects p sample =>
    obtain ⟨station,found,one⟩ := Option.bind_eq_some_iff.mp one
    obtain ⟨_,guarded,one⟩ := Option.bind_eq_some_iff.mp one
    obtain ⟨network,moved,one⟩ := Option.bind_eq_some_iff.mp one
    cases Option.some.inj one
    have free : station.exchange = none ∧ station.program.begun = true ∧ station.program.client.timer.phase = .working := by
      simpa using guarded
    exact .connects found free.1 free.2 moved
  | connect_fails p sample reply =>
    obtain ⟨station,found,one⟩ := Option.bind_eq_some_iff.mp one
    obtain ⟨_,guarded,one⟩ := Option.bind_eq_some_iff.mp one
    obtain ⟨program,stepped,one⟩ := Option.bind_eq_some_iff.mp one
    cases Option.some.inj one
    exact .connect_fails found (by simpa using guarded) stepped
  | work_ends p reply =>
    obtain ⟨station,found,one⟩ := Option.bind_eq_some_iff.mp one
    obtain ⟨⟨i,sample⟩,exchange,one⟩ := Option.bind_eq_some_iff.mp one
    obtain ⟨c,connection,one⟩ := Option.bind_eq_some_iff.mp one
    obtain ⟨tick,ended,one⟩ := Option.bind_eq_some_iff.mp one
    obtain ⟨program,stepped,one⟩ := Option.bind_eq_some_iff.mp one
    obtain ⟨network,moved,one⟩ := Option.bind_eq_some_iff.mp one
    cases Option.some.inj one
    exact .work_ends found exchange connection ended stepped moved

/-- What a move does on the network is done by moves of the network. -/
theorem network_of_step {s t : State} {move : Move} (one : step s move = some t) :
    ∃ moves, run Network.step s.network moves = some t.network := by
  cases steps_of_step one with
  | network moved => exact ⟨[_],run_singleton_some.mpr moved⟩
  | program _ _ _ => exact ⟨[],rfl⟩
  | connects _ _ _ moved => exact ⟨[_],run_singleton_some.mpr moved⟩
  | connect_fails _ _ _ => exact ⟨[],rfl⟩
  | work_ends _ _ _ _ _ moved => exact ⟨[_],run_singleton_some.mpr moved⟩

/-! ## The byte of a tick -/

theorem replyOf_eq_some_iff {byte : Byte} {reply : Reply} : replyOf byte = some reply ↔ reply.wire = [byte] := by
  constructor
  · intro found
    simpa using List.find?_some found
  · intro wire
    have wires : Reply.wire .READ_SUCCESS = [48] ∧ Reply.wire .READ_FAILURE = [49] ∧ Reply.wire .NOT_AUTHORIZED = [50] := by
      decide
    unfold replyOf
    cases reply <;> simp only [wires,List.singleton_inj] at wire <;> subst wire <;> decide

theorem tickOf_sent {c : Connection} {reply : Byte × Byte × Byte} {tick : Client.Tick} (ended : tickOf c reply = some tick) :
    tick.connected = true ∧ tick.sent = c.answer.bind replyOf := by
  unfold tickOf at ended
  cases answered : c.answer with
  | some byte =>
    rw [answered] at ended
    obtain ⟨answer,known,rfl⟩ := Option.map_eq_some_iff.mp ended
    exact ⟨rfl,known.symm⟩
  | none =>
    rw [answered] at ended
    dsimp only at ended
    split at ended
    · cases ended
      refine ⟨rfl,?_⟩
      simp [Client.Tick.sent]
    · cases ended

/-- A tick was sent a reply exactly if its connection brought the byte of it. -/
theorem sent_iff_told {c : Connection} {tick : Client.Tick} (sent : tick.sent = c.answer.bind replyOf) (reply : Reply) :
    tick.sent = some reply ↔ Told c reply := by
  obtain ⟨byte,wire⟩ := Network.wire_singleton reply
  unfold Told
  rw [sent,wire,Option.toList_eq_singleton_iff,Option.bind_eq_some_iff]
  simp only [replyOf_eq_some_iff]
  constructor
  · rintro ⟨other,answered,wire'⟩
    rw [answered,List.singleton_inj.mp (wire'.symm.trans wire)]
  · intro answered
    exact ⟨byte,answered,wire⟩

/-! ## The past of a program -/

/-- A tick that was connected, with the number of its connection. -/
structure Exchange where
  connection : Nat
  sample : Sample
  tick : Client.Tick

structure History where
  labels : List ClientMain.Label
  made : List Exchange

/-- The tick that a program is at, once its work is over. -/
def ended (s : State) (p : Nat) (reply : Byte × Byte × Byte) : Option Exchange := do
  let station ← s.stations[p]?
  let exchange ← station.exchange
  let c ← s.network.connections[exchange.1]?
  let tick ← tickOf c reply
  return ⟨exchange.1,exchange.2,tick⟩

/-- What a move adds to the pasts of the programs. -/
def remember (s : State) (move : Move) (histories : Nat → History) : Nat → History :=
  match move with
  | .program p label =>
    Function.update histories p ⟨(histories p).labels ++ [label],(histories p).made⟩
  | .connect_fails p sample reply =>
    Function.update histories p ⟨(histories p).labels ++ [.periodic_work sample ⟨false,false,none,reply⟩],(histories p).made⟩
  | .work_ends p reply =>
    match ended s p reply with
    | some exchange => Function.update histories p
      ⟨(histories p).labels ++ [.periodic_work exchange.sample exchange.tick],(histories p).made ++ [exchange]⟩
    | none => histories
  | _ => histories

/-- The pasts of the programs after a run. -/
def historiesOf (programs : List ClientMain.State) (server : Server.State) (moves : List Move) : Nat → History :=
  recorded step remember (start programs server) (fun _ => ⟨[],[]⟩) moves

/-- The connections of a program, that of the tick at work included. -/
def numbers (station : Station) (history : History) : List Nat :=
  history.made.map Exchange.connection ++ (station.exchange.map Prod.fst).toList

/-- The connection was made for the line of a sample. -/
def Carried (network : Network.State) (client_key : Bytes) (i : Nat) (sample : Sample) (c : Connection) : Prop :=
  network.connections[i]? = some c ∧ c.line = line_to_be_written client_key sample

/-- The tick was that of its connection: it wrote its line there, got the byte that the
    connection brought, and closed it. -/
def Connected (network : Network.State) (client_key : Bytes) (exchange : Exchange) : Prop :=
  ∃ c, Carried network client_key exchange.connection exchange.sample c ∧ c.down = true ∧
    exchange.tick.sent = c.answer.bind replyOf

/-- A program of the deployment is one on its own, and each of its ticks that was
    connected has a connection, which is closed once the work is done. -/
structure Tells (network : Network.State) (program : ClientMain.State) (station : Station) (history : History) : Prop where
  ran : run ClientMain.step program history.labels = some station.program
  ticks : (ticksOf history.labels).filter (fun entry => entry.2.connected) =
    history.made.map fun exchange => (exchange.sample,exchange.tick)
  made : ∀ exchange ∈ history.made, Connected network program.client_key exchange
  under_way : ∀ i sample, station.exchange = some (i,sample) → ∃ c, Carried network program.client_key i sample c
  increasing : (numbers station history).Pairwise (· < ·)

theorem tells_start {program : ClientMain.State} {network : Network.State} : Tells network program ⟨program,none⟩ ⟨[],[]⟩ :=
  ⟨rfl,rfl,by simp,nofun,by simp [numbers]⟩

theorem numbers_inside {network : Network.State} {program : ClientMain.State} {station : Station} {history : History}
    (tells : Tells network program station history) : ∀ i ∈ numbers station history, i < network.connections.length := by
  intro i member
  obtain ⟨c,found,_⟩ : ∃ c, network.connections[i]? = some c ∧ True := by
    rcases List.mem_append.mp member with past | present
    · obtain ⟨exchange,among,rfl⟩ := List.mem_map.mp past
      obtain ⟨c,⟨found,_⟩,_⟩ := tells.made exchange among
      exact ⟨c,found,trivial⟩
    · obtain ⟨⟨j,sample⟩,exchange,same⟩ := Option.map_eq_some_iff.mp (Option.mem_toList.mp present)
      obtain ⟨c,found,_⟩ := tells.under_way j sample exchange
      exact ⟨c,same ▸ found,trivial⟩
  exact (List.getElem?_eq_some_iff.mp found).1

/-- Whatever the network does, the past of a program stays as it was. -/
theorem tells_network {n m : Network.State} {move : Network.Move} {program : ClientMain.State} {station : Station}
    {history : History} (tells : Tells n program station history) (moved : Network.step n move = some m) :
    Tells m program station history := by
  obtain ⟨ran,ticks,made,under_way,increasing⟩ := tells
  have one := Network.steps_of_step moved
  refine ⟨ran,ticks,?_,?_,increasing⟩
  · intro exchange member
    obtain ⟨c,⟨found,line⟩,down,sent⟩ := made exchange member
    obtain ⟨d,found',line',closed,_⟩ := Network.connection_step one found
    exact ⟨d,⟨found',line'.trans line⟩,(closed down).1,by rw [sent,(closed down).2]⟩
  · intro i sample exchange
    obtain ⟨c,found,line⟩ := under_way i sample exchange
    obtain ⟨d,found',line',_⟩ := Network.connection_step one found
    exact ⟨d,found',line'.trans line⟩

theorem tells_run {n m : Network.State} {moves : List Network.Move} {program : ClientMain.State} {station : Station}
    {history : History} (tells : Tells n program station history) (goesOn : run Network.step n moves = some m) :
    Tells m program station history :=
  run_invariant (fun n => Tells n program station history) (fun _ _ _ tells moved => tells_network tells moved) goesOn tells

theorem client_key_of_tells {network : Network.State} {program : ClientMain.State} {station : Station} {history : History}
    (tells : Tells network program station history) : station.program.client_key = program.client_key :=
  run_constant ClientMain.State.client_key (fun _ _ _ one => (ClientMain.given_step one).2.1) tells.ran

/-- A step of the program that is no tick with a connection. -/
theorem tells_program {network : Network.State} {program next : ClientMain.State} {station : Station} {history : History}
    {label : ClientMain.Label} (tells : Tells network program station history)
    (unconnected : (ticksOf [label]).filter (fun entry => entry.2.connected) = [])
    (stepped : ClientMain.step station.program label = some next) :
    Tells network program { station with program := next } { history with labels := history.labels ++ [label] } := by
  obtain ⟨ran,ticks,made,under_way,increasing⟩ := tells
  refine ⟨run_snoc_some.mpr ⟨_,ran,stepped⟩,?_,made,under_way,increasing⟩
  rw [ClientMain.ticksOf_append,List.filter_append,unconnected,List.append_nil,ticks]

theorem tells_connects {n m : Network.State} {program : ClientMain.State} {station : Station} {history : History}
    {sample : Sample} (tells : Tells n program station history) (free : station.exchange = none)
    (moved : Network.step n (.connect (line_to_be_written station.program.client_key sample)) = some m) :
    Tells m program { station with exchange := some (n.connections.length,sample) } history := by
  have inside := numbers_inside tells
  obtain ⟨ran,ticks,made,_,increasing⟩ := tells_network tells moved
  have key := client_key_of_tells tells
  cases Option.some.inj moved
  refine ⟨ran,ticks,made,?_,?_⟩
  · intro i other exchange
    cases Option.some.inj exchange
    exact ⟨Network.connect (line_to_be_written station.program.client_key sample),by simp,by rw [key]; rfl⟩
  · simp only [numbers,free,Option.map_none,Option.toList_none,List.append_nil] at increasing inside
    simp only [numbers,Option.map_some,Option.toList_some,List.pairwise_append,List.pairwise_singleton,List.mem_singleton]
    refine ⟨increasing,trivial,?_⟩
    rintro i member _ rfl
    exact inside i member

theorem tells_work_ends {n m : Network.State} {program next : ClientMain.State} {station : Station} {history : History}
    {i : Nat} {sample : Sample} {c : Connection} {reply : Byte × Byte × Byte} {tick : Client.Tick}
    (tells : Tells n program station history) (exchange : station.exchange = some (i,sample))
    (found : n.connections[i]? = some c) (ended : tickOf c reply = some tick)
    (stepped : ClientMain.step station.program (.periodic_work sample tick) = some next)
    (moved : Network.step n (.goes_down i) = some m) :
    Tells m program ⟨next,none⟩ ⟨history.labels ++ [.periodic_work sample tick],history.made ++ [⟨i,sample,tick⟩]⟩ := by
  obtain ⟨connected,sent⟩ := tickOf_sent ended
  obtain ⟨c',found',line⟩ := tells.under_way i sample exchange
  obtain ⟨ran,ticks,made,_,increasing⟩ := tells_network tells moved
  cases found.symm.trans found'
  have closed : m.connections[i]? = some { c with down := true } := by
    obtain ⟨c',found',one⟩ := Option.bind_eq_some_iff.mp moved
    cases found.symm.trans found'
    cases Option.some.inj one
    exact List.getElem?_set_self (List.getElem?_eq_some_iff.mp found).1
  refine ⟨run_snoc_some.mpr ⟨_,ran,stepped⟩,?_,?_,nofun,?_⟩
  · rw [ClientMain.ticksOf_tick,List.filter_append,ticks,List.map_append]
    simp [connected]
  · intro past member
    rcases List.mem_append.mp member with earlier | last
    · exact made past earlier
    · rw [List.mem_singleton.mp last]
      exact ⟨_,⟨closed,line⟩,rfl,sent⟩
  · simpa [numbers,exchange] using increasing

/-! ## All programs of a deployment -/

/-- Every program tells its own past, and no connection belongs to two of them. -/
structure Sound (authorized_clients : Clients) (programs : List ClientMain.State) (s : State) (histories : Nat → History) :
    Prop where
  network : ∃ moves, run Network.step (Network.start authorized_clients) moves = some s.network
  tells : ∀ p station, s.stations[p]? = some station →
    ∃ program, programs[p]? = some program ∧ Tells s.network program station (histories p)
  apart : ∀ p q first second, p ≠ q → s.stations[p]? = some first → s.stations[q]? = some second →
    ∀ i ∈ numbers first (histories p), i ∉ numbers second (histories q)

theorem sound_start (authorized_clients : Clients) (programs : List ClientMain.State) :
    Sound authorized_clients programs (start programs (Server.start authorized_clients)) fun _ => ⟨[],[]⟩ := by
  have fresh : ∀ (p : Nat) (station : Station), (start programs (Server.start authorized_clients)).stations[p]? = some station →
      ∃ program, programs[p]? = some program ∧ station = ⟨program,none⟩ := by
    intro p station found
    simp only [start,List.getElem?_map] at found
    obtain ⟨program,given,rfl⟩ := Option.map_eq_some_iff.mp found
    exact ⟨program,given,rfl⟩
  refine ⟨⟨[],rfl⟩,?_,?_⟩
  · intro p station found
    obtain ⟨program,given,rfl⟩ := fresh p station found
    exact ⟨program,given,tells_start⟩
  · intro p q first second _ found _ i member
    obtain ⟨program,_,rfl⟩ := fresh p first found
    simp [numbers] at member

theorem sound_network {authorized_clients : Clients} {programs : List ClientMain.State} {s : State} {network : Network.State}
    {histories : Nat → History} {move : Network.Move} (sound : Sound authorized_clients programs s histories)
    (moved : Network.step s.network move = some network) :
    Sound authorized_clients programs { s with network } histories := by
  obtain ⟨⟨moves,ran⟩,tells,apart⟩ := sound
  refine ⟨⟨moves ++ [move],run_snoc_some.mpr ⟨_,ran,moved⟩⟩,?_,apart⟩
  intro p station found
  obtain ⟨program,given,past⟩ := tells p station found
  exact ⟨program,given,tells_network past moved⟩

/-- A station goes on with the network, and makes connections of its own only. -/
theorem sound_set {authorized_clients : Clients} {programs : List ClientMain.State} {s : State} {network : Network.State}
    {histories : Nat → History} {p : Nat} {station next : Station} {history : History} {moves : List Network.Move}
    (sound : Sound authorized_clients programs s histories) (found : s.stations[p]? = some station)
    (moved : run Network.step s.network moves = some network)
    (goesOn : ∀ program, Tells s.network program station (histories p) → Tells network program next history)
    (fresh : ∀ i ∈ numbers next history, i ∈ numbers station (histories p) ∨ s.network.connections.length ≤ i) :
    Sound authorized_clients programs ⟨s.stations.set p next,network⟩ (Function.update histories p history) := by
  obtain ⟨⟨before,ran⟩,tells,apart⟩ := sound
  have inside := (List.getElem?_eq_some_iff.mp found).1
  have own : ∀ i ∈ numbers next history, ∀ q other, q ≠ p → s.stations[q]? = some other → i ∉ numbers other (histories q) := by
    intro i member q other different there member'
    rcases fresh i member with old | new
    · exact apart p q station other different.symm found there i old member'
    · obtain ⟨program,_,past⟩ := tells q other there
      have used := numbers_inside past i member'
      omega
  refine ⟨⟨before ++ moves,run_append_some.mpr ⟨_,ran,moved⟩⟩,?_,?_⟩
  · intro q other there
    by_cases same : q = p
    · subst same
      rw [List.getElem?_set_self inside] at there
      cases Option.some.inj there
      obtain ⟨program,given,past⟩ := tells q station found
      rw [Function.update_self]
      exact ⟨program,given,goesOn program past⟩
    · rw [List.getElem?_set_ne (Ne.symm same)] at there
      obtain ⟨program,given,past⟩ := tells q other there
      rw [Function.update_of_ne same]
      exact ⟨program,given,tells_run past moved⟩
  · intro q r first second different there there' i member
    by_cases same : q = p
    · subst same
      rw [List.getElem?_set_self inside] at there
      rw [List.getElem?_set_ne different] at there'
      cases Option.some.inj there
      rw [Function.update_self] at member
      rw [Function.update_of_ne different.symm]
      exact own i member r second different.symm there'
    · rw [List.getElem?_set_ne (Ne.symm same)] at there
      rw [Function.update_of_ne same] at member
      by_cases same' : r = p
      · subst same'
        rw [List.getElem?_set_self inside] at there'
        cases Option.some.inj there'
        rw [Function.update_self]
        exact fun member' => own i member' q first same there member
      · rw [List.getElem?_set_ne (Ne.symm same')] at there'
        rw [Function.update_of_ne same']
        exact apart q r first second different there there' i member

/-- Nobody but its program makes a connection of a program. -/
theorem sound_step {authorized_clients : Clients} {programs : List ClientMain.State} {s t : State} {histories : Nat → History}
    {move : Move} (sound : Sound authorized_clients programs s histories) (one : step s move = some t) :
    Sound authorized_clients programs t (remember s move histories) := by
  cases steps_of_step one with
  | network moved => exact sound_network sound moved
  | @program p label station next found quiet stepped =>
    exact sound_set sound found (run_nil _ _) (fun _ past => tells_program past (by rw [quiet]; rfl) stepped)
      fun _ member => .inl member
  | @connects p sample station network found free _ moved =>
    have same := sound_set sound found (run_singleton_some.mpr moved) (fun _ past => tells_connects past free moved) (by
      intro i member
      simp only [numbers,Option.map_some,Option.toList_some,List.mem_append,List.mem_singleton] at member ⊢
      rcases member with past | new
      · exact .inl (.inl past)
      · exact .inr new.ge)
    rwa [Function.update_eq_self] at same
  | @connect_fails p sample reply station next found _ stepped =>
    exact sound_set sound found (run_nil _ _) (fun _ past => tells_program past rfl stepped) fun _ member => .inl member
  | @work_ends p reply station i sample c tick next network found exchange connection finished stepped moved =>
    have last : ended s p reply = some ⟨i,sample,tick⟩ := by simp [ended,found,exchange,connection,finished]
    simp only [remember,last]
    refine sound_set sound found (run_singleton_some.mpr moved)
      (fun _ past => tells_work_ends past exchange connection finished stepped moved) ?_
    intro j member
    left
    simpa [numbers,exchange] using member

theorem run_sound {authorized_clients : Clients} {programs : List ClientMain.State} {moves : List Move} {s : State}
    (ran : run step (start programs (Server.start authorized_clients)) moves = some s) :
    Sound authorized_clients programs s (historiesOf programs (Server.start authorized_clients) moves) :=
  @recorded_invariant _ _ step _ remember (Sound authorized_clients programs) (fun _ _ _ _ sound one => sound_step sound one)
    _ _ _ _ ran (sound_start authorized_clients programs)

/-! ## Programs at work -/

/-- As long as its tick is connected, a program is at work. -/
def AtWork (s : State) : Prop := ∀ (p : Nat) (station : Station), s.stations[p]? = some station → station.exchange ≠ none →
  station.program.begun = true ∧ station.program.client.timer.phase = .working

private theorem atWork_set {s : State} {network : Network.State} {p : Nat} {next : Station} (atWork : AtWork s)
    (own : next.exchange ≠ none → next.program.begun = true ∧ next.program.client.timer.phase = .working) :
    AtWork ⟨s.stations.set p next,network⟩ := by
  intro q station found
  by_cases same : p = q
  · subst same
    have inside : p < s.stations.length := by simpa using (List.getElem?_eq_some_iff.mp found).1
    rw [List.getElem?_set_self inside] at found
    cases Option.some.inj found
    exact own
  · exact atWork q station (by rwa [List.getElem?_set_ne same] at found)

theorem atWork_step {s t : State} {move : Move} (atWork : AtWork s) (one : step s move = some t) : AtWork t := by
  cases steps_of_step one with
  | network _ => exact atWork
  | program found quiet stepped =>
    refine atWork_set atWork fun connected => ?_
    obtain ⟨begun,working⟩ := atWork _ _ found connected
    exact ClientMain.working_kept begun working quiet stepped
  | connects _ _ working _ => exact atWork_set atWork fun _ => working
  | connect_fails _ free _ => exact atWork_set atWork fun connected => absurd free connected
  | work_ends _ _ _ _ _ _ => exact atWork_set atWork fun connected => absurd rfl connected

theorem run_atWork {programs : List ClientMain.State} {server : Server.State} {moves : List Move} {s : State}
    (ran : run step (start programs server) moves = some s) : AtWork s := by
  refine run_invariant AtWork (fun _ _ _ atWork one => atWork_step atWork one) ran ?_
  intro p station found connected
  simp only [start,List.getElem?_map] at found
  obtain ⟨program,_,rfl⟩ := Option.map_eq_some_iff.mp found
  exact absurd rfl connected

/-- A tick is over with the byte that it read, or once its connection is lost. -/
theorem tickOf_isSome {authorized_clients : Clients} {moves : List Network.Move} {n : Network.State} {i : Nat} {c : Connection}
    (ran : run Network.step (Network.start authorized_clients) moves = some n) (found : n.connections[i]? = some c)
    (settled : c.down = true ∨ c.answer ≠ none) (reply : Byte × Byte × Byte) : ∃ tick, tickOf c reply = some tick := by
  unfold tickOf
  cases answered : c.answer with
  | some byte =>
    have known := replyOf_eq_some_iff.mpr (Network.run_answered ran found answered)
    exact ⟨_,Option.map_eq_some_iff.mpr ⟨_,known,rfl⟩⟩
  | none =>
    have down : c.down = true := settled.resolve_right fun told => told answered
    rw [if_pos down]
    exact ⟨_,rfl⟩

theorem work_ends_enabled {s : State} (atWork : AtWork s) {p : Nat} {station : Station} {i : Nat} {sample : Sample}
    {c : Connection} {reply : Byte × Byte × Byte} {tick : Client.Tick} (found : s.stations[p]? = some station)
    (exchange : station.exchange = some (i,sample)) (connection : s.network.connections[i]? = some c)
    (ended : tickOf c reply = some tick) : (step s (.work_ends p reply)).isSome := by
  obtain ⟨begun,working⟩ := atWork p station found (by rw [exchange]; nofun)
  obtain ⟨program,stepped⟩ := Option.isSome_iff_exists.mp (ClientMain.tick_enabled begun working sample tick)
  simp [step,Network.step,found,exchange,connection,ended,stepped]

/-! ## Reports and details -/

/-- The server inserted the report of a tick once, but for an end of its time. -/
def StoredOnce (client_key : Bytes) (server : Server.State) (exchange : Exchange) : Prop :=
  ∃ str_time c_detail, str_time <+: exchange.sample.str_time ∧ inserted exchange.connection server = [c_detail] ∧
    Reports.Decodes client_key exchange.sample.memory_percentage.val exchange.sample.cpu_percentage.val
      exchange.sample.no_of_processes.val str_time c_detail

/-- A tick that was connected, against the file of the server and what it inserted. -/
structure Reported (boost : Boost) (clients : Ptree) (client_key : Bytes) (server : Server.State) (exchange : Exchange) :
    Prop where
  success : exchange.tick.sent = some .READ_SUCCESS → Lists boost clients client_key ∧ StoredOnce client_key server exchange
  not_authorized : exchange.tick.sent = some .NOT_AUTHORIZED →
    ¬ Lists boost clients client_key ∧ inserted exchange.connection server = []
  failure : exchange.tick.sent ≠ some .READ_FAILURE
  at_most_once : inserted exchange.connection server = [] ∨
    Lists boost clients client_key ∧ StoredOnce client_key server exchange

/-- What a program of the deployment did, on its own, on the network and with the
    server. -/
structure Accounted (boost : Boost) (clients : Ptree) (network : Network.State) (program : ClientMain.State) (station : Station)
    (history : History) : Prop where
  ran : run ClientMain.step program history.labels = some station.program
  ticks : (ticksOf history.labels).filter (fun entry => entry.2.connected) =
    history.made.map fun exchange => (exchange.sample,exchange.tick)
  increasing : (history.made.map Exchange.connection).Pairwise (· < ·)
  connected : ∀ exchange ∈ history.made, Connected network program.client_key exchange
  reported : ∀ exchange ∈ history.made, Reported boost clients program.client_key network.server exchange

theorem reported_of_served {boost : Boost} {clients : Ptree} {client_key : Bytes} {server : Server.State} {c : Connection}
    {exchange : Exchange} (served : Served boost clients client_key exchange.sample c (inserted exchange.connection server))
    (sent : exchange.tick.sent = c.answer.bind replyOf) : Reported boost clients client_key server exchange := by
  have told := sent_iff_told sent
  obtain ⟨success,not_authorized,failure,once⟩ := served
  have once : inserted exchange.connection server = [] ∨
      Lists boost clients client_key ∧ StoredOnce client_key server exchange := by
    refine once.imp_right ?_
    rintro ⟨lists,str_time,c_detail,start,detail,decodes⟩
    exact ⟨lists,str_time,c_detail,start,detail,decodes⟩
  refine ⟨?_,fun refused => not_authorized ((told _).mp refused),fun failed => failure ((told _).mp failed),once⟩
  intro succeeded
  exact once.resolve_left (success ((told _).mp succeeded)).2

theorem accounted {authorized_clients : Clients} {boost : Boost} {clients : Ptree}
    (keys : ∀ client_key, client_key ∈ authorized_clients ↔ Lists boost clients client_key) {programs : List ClientMain.State}
    {s : State} {histories : Nat → History} (sound : Sound authorized_clients programs s histories) {p : Nat}
    {program : ClientMain.State} {station : Station} (given : programs[p]? = some program)
    (found : s.stations[p]? = some station) (plain : separator ∉ program.client_key) :
    Accounted boost clients s.network program station (histories p) := by
  obtain ⟨⟨moves,ran⟩,tells,_⟩ := sound
  obtain ⟨program',given',past⟩ := tells p station found
  cases given.symm.trans given'
  refine ⟨past.ran,past.ticks,(List.pairwise_append.mp past.increasing).1,past.made,?_⟩
  intro exchange member
  obtain ⟨c,⟨connection,line⟩,_,sent⟩ := past.made exchange member
  exact reported_of_served (served keys ran connection line plain) sent

/-- However the programs, their server, the network and any other peers take turns:
    every tick of every program that was connected had a connection of its own, shared
    with no other program. A tick that was told success has its report inserted exactly
    once, every other tick at most once, and only for a key that the file lists. -/
theorem reports_once {env : Environment} {program typed server_config db_settings : Bytes} {listening : Listening}
    {programs : List ClientMain.State} {moves : List Move} {s : State}
    (started : main_start env [program,typed,server_config,db_settings] = .ok listening)
    (ran : run step (start programs listening.server) moves = some s) :
    ∃ pt clients, env.read_xml server_config = some pt ∧ get_child env.boost pt (lit "clients") = some clients ∧
      (∀ p q first second, p ≠ q → s.stations[p]? = some first → s.stations[q]? = some second →
        ∀ i ∈ numbers first (historiesOf programs listening.server moves p),
          i ∉ numbers second (historiesOf programs listening.server moves q)) ∧
      ∀ p program station, programs[p]? = some program → s.stations[p]? = some station → separator ∉ program.client_key →
        Accounted env.boost clients s.network program station (historiesOf programs listening.server moves p) := by
  obtain ⟨pt,authorized_clients,read,loads,server⟩ := started_loads started
  obtain ⟨clients,found,keys⟩ := mem_loaded loads
  rw [server] at ran ⊢
  have sound := run_sound ran
  exact ⟨pt,clients,read,found,sound.apart,fun _ _ _ given there plain => accounted keys sound given there plain⟩

/-- One tick of a client program, and its user quits. -/
def testMoves : List Move :=
  [.program 0 .begins,.program 0 (.timer .expires),.connects 0 ClientMain.testSample,.network (.accept true),
    .network (.write_some 0 (line_to_be_written (lit "jill") ClientMain.testSample).length),
    .network (.deliver 0 (line_to_be_written (lit "jill") ClientMain.testSample).length ⟨.async,.returned⟩),
    .network (.write_completes 0 true),.network (.read_reply 0),.work_ends 0 (7,7,7),.program 0 (.quits 2),
    .program 0 (.timer .check),.program 0 (.timer .run_returns),.program 0 .get_returns]

theorem testMoves_end : ∃ listening client s station,
    main_start testEnvironment [lit "sys_info_server",lit "8080",lit "server_config.xml",lit "db_settings.xml"] = .ok listening ∧
    ClientMain.main_start ClientMain.testArgv (lit "quit\n") .async = some client ∧ client.client_key = lit "jill" ∧
    run step (start [client] listening.server) testMoves = some s ∧ s.stations[0]? = some station ∧
    station.program.main = .returned 0 ∧
    (historiesOf [client] listening.server testMoves 0).made.map (fun exchange => (exchange.connection,exchange.tick.sent)) =
      [(0,some .READ_SUCCESS)] := by
  have ends : ((main_start testEnvironment
      [lit "sys_info_server",lit "8080",lit "server_config.xml",lit "db_settings.xml"]).toOption.bind fun listening =>
      (ClientMain.main_start ClientMain.testArgv (lit "quit\n") .async).bind fun client =>
      (run step (start [client] listening.server) testMoves).bind fun s => s.stations[0]?.map fun station =>
      (station.program.main,(historiesOf [client] listening.server testMoves 0).made.map
        fun exchange => (exchange.connection,exchange.tick.sent))) =
      some (.returned 0,[(0,some .READ_SUCCESS)]) := by decide +kernel
  obtain ⟨listening,started,reached⟩ := Option.bind_eq_some_iff.mp ends
  obtain ⟨client,client_started,reached⟩ := Option.bind_eq_some_iff.mp reached
  obtain ⟨s,ran,reached⟩ := Option.bind_eq_some_iff.mp reached
  obtain ⟨station,found,shown⟩ := Option.map_eq_some_iff.mp reached
  obtain ⟨returned,made⟩ := Prod.mk.inj shown
  have key : client.client_key = lit "jill" := by
    cases Option.some.inj client_started
    rfl
  exact ⟨listening,client,s,station,ok_of_toOption started,client_started,key,ran,found,returned,made⟩

/-- The tick was told success, so that its one report is inserted. -/
theorem reports_once_test : ∃ listening client s station clients history,
    main_start testEnvironment [lit "sys_info_server",lit "8080",lit "server_config.xml",lit "db_settings.xml"] = .ok listening ∧
    run step (start [client] listening.server) testMoves = some s ∧ s.stations[0]? = some station ∧
    historiesOf [client] listening.server testMoves 0 = history ∧
    history.made.map (fun exchange => (exchange.connection,exchange.tick.sent)) = [(0,some .READ_SUCCESS)] ∧
    Accounted firstChild clients s.network client station history := by
  obtain ⟨listening,client,s,station,started,_,key,ran,found,_,made⟩ := testMoves_end
  obtain ⟨pt,clients,_,_,_,accounts⟩ := reports_once started ran
  have plain : separator ∉ client.client_key := by
    rw [key]
    decide
  exact ⟨listening,client,s,station,clients,_,started,ran,found,rfl,made,accounts 0 client station rfl found plain⟩

/-! ## What a program logs -/

/-- The branch of a tick whose key the file lists. -/
theorem branch_of_listed {boost : Boost} {clients : Ptree} {client_key : Bytes} {server : Server.State} {exchange : Exchange}
    (reported : Reported boost clients client_key server exchange) (lists : Lists boost clients client_key) :
    Client.periodic_work exchange.tick = none ∨
      Client.periodic_work exchange.tick = some .success ∧ StoredOnce client_key server exchange := by
  rw [Client.periodic_work_eq]
  cases sent : exchange.tick.sent with
  | none => exact .inl rfl
  | some reply =>
    cases reply with
    | READ_SUCCESS => exact .inr ⟨rfl,(reported.success sent).2⟩
    | READ_FAILURE => exact absurd sent reported.failure
    | NOT_AUTHORIZED => exact absurd lists (reported.not_authorized sent).1

/-- The branch of a tick whose key the file does not list. -/
theorem branch_of_unlisted {boost : Boost} {clients : Ptree} {client_key : Bytes} {server : Server.State} {exchange : Exchange}
    (reported : Reported boost clients client_key server exchange) (stranger : ¬ Lists boost clients client_key) :
    inserted exchange.connection server = [] ∧ (exchange.tick.sent = none ∨ exchange.tick.sent = some .NOT_AUTHORIZED) := by
  refine ⟨reported.at_most_once.resolve_right fun stored => stranger stored.1,?_⟩
  cases sent : exchange.tick.sent with
  | none => exact .inl rfl
  | some reply =>
    cases reply with
    | READ_SUCCESS => exact absurd (reported.success sent).1 stranger
    | READ_FAILURE => exact absurd sent reported.failure
    | NOT_AUTHORIZED => exact .inr rfl

theorem unconnected_throws {tick : Client.Tick} (unconnected : tick.connected = false) : Client.periodic_work tick = none := by
  rw [Client.periodic_work_eq]
  simp [Client.Tick.sent,unconnected]

/-- Ticks that throw or succeed leave the lines of those that were connected in the
    log. -/
theorem records_eq {client_key : Bytes} (ticks : List (Sample × Client.Tick))
    (branches : ∀ entry ∈ ticks, entry.2.connected = true →
      Client.periodic_work entry.2 = none ∨ Client.periodic_work entry.2 = some .success) :
    ClientMain.records client_key ticks = (ticks.filter fun entry => entry.2.connected).map fun entry =>
      ⟨.info,line_to_be_written client_key entry.1⟩ := by
  induction ticks with
  | nil => rfl
  | cons entry rest ih =>
    have later := ih fun other member => branches other (List.mem_cons_of_mem _ member)
    unfold ClientMain.records at later ⊢
    rw [List.flatMap_cons,later]
    cases connected : entry.2.connected with
    | false => simp [ClientMain.messages,connected,unconnected_throws connected]
    | true =>
      rcases branches entry List.mem_cons_self connected with threw | succeeded
      · simp [ClientMain.messages,connected,threw]
      · simp [ClientMain.messages,connected,succeeded]

theorem rejected_iff (tick : Client.Tick) : Client.periodic_work tick = some .not_authorized ↔
    tick.sent = some .NOT_AUTHORIZED ∧ tick.reply.2.1 = 0 := by
  rw [Client.periodic_work_eq]
  cases tick.sent with
  | none => simp
  | some reply => by_cases zero : tick.reply.2.1 = 0 <;> cases reply <;> simp [zero]

/-- A tick of the account is one of the client, at its place. -/
theorem tick_of_made {labels : List ClientMain.Label} {ticks : List Client.Tick} {made before after : List Exchange}
    {exchange : Exchange} (own : (ticksOf labels).map Prod.snd = ticks)
    (connected : (ticksOf labels).filter (fun entry => entry.2.connected) = made.map fun exchange => (exchange.sample,exchange.tick))
    (split : made = before ++ exchange :: after) :
    ∃ earlier later, ticks = earlier ++ exchange.tick :: later ∧ (later = [] → after = []) := by
  rw [split,List.map_append,List.map_cons] at connected
  obtain ⟨first,second,whole,_,rest⟩ := List.filter_eq_append_iff.mp connected
  obtain ⟨between,later,tail,_,_,kept⟩ := List.filter_eq_cons_iff.mp rest
  refine ⟨(first ++ between).map Prod.snd,later.map Prod.snd,?_,?_⟩
  · rw [← own,whole,tail]
    simp
  · intro none
    rw [List.map_eq_nil_iff.mp none,List.filter_nil] at kept
    exact List.map_eq_nil_iff.mp kept.symm

/-- A program whose key the file lists, against the server. -/
structure KeepsReporting (client_key : Bytes) (server : Server.State) (s : ClientMain.State) (made : List Exchange) : Prop where
  increasing : (made.map Exchange.connection).Pairwise (· < ·)
  /-- Its lines are all that it logs, but for what `get` threw. -/
  log : ∃ ending, s.log = made.map (fun exchange => ⟨.info,line_to_be_written client_key exchange.sample⟩) ++ ending ∧
    (ending = [] ∧ s.main ≠ .returned 1 ∨ s.main = .returned 1 ∧ ∃ what, ending = [⟨.error,what⟩])
  /-- Only the report of the tick that threw may be missing. -/
  stored : ∀ before exchange after, made = before ++ exchange :: after → StoredOnce client_key server exchange ∨
    inserted exchange.connection server = [] ∧ after = [] ∧ s.client.timer.phase = .threw
  /-- Only its user stops it. -/
  stop : s.client.timer.stop = true → s.main ≠ .waiting

/-- A program whose key the file does not list, against the server. -/
structure TurnedAway (server : Server.State) (s : ClientMain.State) (made : List Exchange) : Prop where
  increasing : (made.map Exchange.connection).Pairwise (· < ·)
  nothing : ∀ exchange ∈ made, inserted exchange.connection server = [] ∧
    (exchange.tick.sent = none ∨ exchange.tick.sent = some .NOT_AUTHORIZED)
  fatal : (∃ record ∈ s.log, record.severity_level = .fatal) ↔
    ∃ exchange ∈ made, exchange.tick.sent = some .NOT_AUTHORIZED ∧ exchange.tick.reply.2.1 = 0
  last : ∀ before exchange after, made = before ++ exchange :: after → exchange.tick.sent = some .NOT_AUTHORIZED →
    exchange.tick.reply.2.1 = 0 → after = [] ∧ s.client.timer.stop = true

theorem keepsReporting {boost : Boost} {clients : Ptree} {network : Network.State} {argv : List Bytes} {input : Bytes}
    {launch : Launch} {program : ClientMain.State} {station : Station} {history : History}
    (started : ClientMain.main_start argv input launch = some program)
    (account : Accounted boost clients network program station history) (lists : Lists boost clients program.client_key) :
    KeepsReporting program.client_key network.server station.program history.made := by
  obtain ⟨ran,connected,increasing,_,reported⟩ := account
  have logged := ClientMain.run_logged started ran
  obtain ⟨ticks,alone⟩ := ClientMain.run_ticks started ran
  have key : station.program.client_key = program.client_key :=
    run_constant ClientMain.State.client_key (fun _ _ _ one => (ClientMain.given_step one).2.1) ran
  have branch := fun exchange member => branch_of_listed (reported exchange member) lists
  have branches : ∀ entry ∈ ticksOf history.labels, entry.2.connected = true →
      Client.periodic_work entry.2 = none ∨ Client.periodic_work entry.2 = some .success := by
    intro entry member isConnected
    have inside : entry ∈ history.made.map fun exchange => (exchange.sample,exchange.tick) := by
      rw [← connected]
      exact List.mem_filter.mpr ⟨member,isConnected⟩
    obtain ⟨exchange,among,rfl⟩ := List.mem_map.mp inside
    exact (branch exchange among).imp_right And.left
  refine ⟨increasing,?_,?_,?_⟩
  · obtain ⟨ending,log,ends⟩ := logged.log_eq
    refine ⟨ending,?_,ends⟩
    rw [log,key,records_eq _ branches,connected,List.map_map]
    rfl
  · intro before exchange after split
    have member : exchange ∈ history.made := by simp [split]
    rcases branch exchange member with threw | ⟨_,stored⟩
    · refine (reported exchange member).at_most_once.symm.imp And.right fun none => ⟨none,?_⟩
      obtain ⟨earlier,later,whole,final⟩ := tick_of_made logged.ticks connected split
      obtain ⟨rest,phase⟩ := (ClientMain.run_ticked alone).last earlier exchange.tick later whole threw
      exact ⟨final rest,phase⟩
    · exact .inl stored
  · intro stop
    refine (ClientMain.run_stop started ran stop).resolve_right ?_
    rintro ⟨tick,member,rejected⟩
    rw [← logged.ticks] at member
    obtain ⟨entry,among,rfl⟩ := List.mem_map.mp member
    rcases branches entry among (ClientMain.rejected_sent rejected).1 with other | other <;> rw [other] at rejected <;> cases rejected

theorem turnedAway {boost : Boost} {clients : Ptree} {network : Network.State} {argv : List Bytes} {input : Bytes}
    {launch : Launch} {program : ClientMain.State} {station : Station} {history : History}
    (started : ClientMain.main_start argv input launch = some program)
    (account : Accounted boost clients network program station history) (stranger : ¬ Lists boost clients program.client_key) :
    TurnedAway network.server station.program history.made := by
  obtain ⟨ran,connected,increasing,_,reported⟩ := account
  have logged := ClientMain.run_logged started ran
  obtain ⟨ticks,alone⟩ := ClientMain.run_ticks started ran
  have among : ∀ entry, (entry ∈ ticksOf history.labels ∧ entry.2.connected = true) ↔
      ∃ exchange ∈ history.made, (exchange.sample,exchange.tick) = entry := by
    intro entry
    rw [← List.mem_map,← connected,List.mem_filter]
  refine ⟨increasing,fun exchange member => branch_of_unlisted (reported exchange member) stranger,?_,?_⟩
  · obtain ⟨ending,log,ends⟩ := logged.log_eq
    rw [log]
    constructor
    · rintro ⟨record,member,fatal⟩
      rcases List.mem_append.mp member with inside | outside
      · obtain ⟨entry,inside,own⟩ := List.mem_flatMap.mp inside
        obtain ⟨rejected,_⟩ := ClientMain.messages_fatal own fatal
        obtain ⟨exchange,made,rfl⟩ := (among entry).mp ⟨inside,(ClientMain.rejected_sent rejected).1⟩
        exact ⟨exchange,made,(rejected_iff _).mp rejected⟩
      · rcases ends with ⟨rfl,_⟩ | ⟨_,what,rfl⟩
        · cases outside
        · rw [List.mem_singleton.mp outside] at fatal
          cases fatal
    · rintro ⟨exchange,made,refused⟩
      have rejected := (rejected_iff exchange.tick).mpr refused
      refine ⟨⟨.fatal,lit "Failure : Not Authorized"⟩,List.mem_append_left _ (List.mem_flatMap.mpr ?_),rfl⟩
      refine ⟨(exchange.sample,exchange.tick),((among _).mpr ⟨exchange,made,rfl⟩).1,?_⟩
      simp [ClientMain.messages,rejected]
  · intro before exchange after split sent zero
    have rejected := (rejected_iff exchange.tick).mpr ⟨sent,zero⟩
    obtain ⟨earlier,later,whole,final⟩ := tick_of_made logged.ticks connected split
    obtain ⟨rest,stopped⟩ := Client.rejected_is_last alone earlier exchange.tick later whole rejected
    exact ⟨final rest,stopped.1⟩

/-- However the programs, their server and other peers take turns, the key of a client
    program alone decides what becomes of it. One that the file lists logs nothing but
    its lines until it ends, and the server inserts each of them once, in their order,
    but perhaps for that of the tick that threw; only its user stops it. One that the
    file does not list has nothing inserted and is told so, and a refusal with a NUL
    behind it is its last tick and the one fatal record. -/
theorem key_decides {env : Environment} {program typed server_config db_settings : Bytes} {listening : Listening}
    {programs : List ClientMain.State} {moves : List Move} {s : State} {argv : List Bytes} {input : Bytes} {launch : Launch}
    {p : Nat} {client : ClientMain.State} {station : Station}
    (server_started : main_start env [program,typed,server_config,db_settings] = .ok listening)
    (ran : run step (start programs listening.server) moves = some s)
    (client_started : ClientMain.main_start argv input launch = some client) (given : programs[p]? = some client)
    (found : s.stations[p]? = some station) (plain : separator ∉ client.client_key) :
    ∃ pt clients history, env.read_xml server_config = some pt ∧ get_child env.boost pt (lit "clients") = some clients ∧
      historiesOf programs listening.server moves p = history ∧ Accounted env.boost clients s.network client station history ∧
      (Lists env.boost clients client.client_key →
        KeepsReporting client.client_key s.network.server station.program history.made) ∧
      (¬ Lists env.boost clients client.client_key → TurnedAway s.network.server station.program history.made) := by
  obtain ⟨pt,authorized_clients,read,loads,server⟩ := started_loads server_started
  obtain ⟨clients,tree,keys⟩ := mem_loaded loads
  rw [server] at ran ⊢
  have account := accounted keys (run_sound ran) given found plain
  exact ⟨pt,clients,_,read,tree,rfl,account,keepsReporting client_started account,turnedAway client_started account⟩

theorem key_decides_test : ∃ listening client s station history,
    main_start testEnvironment [lit "sys_info_server",lit "8080",lit "server_config.xml",lit "db_settings.xml"] = .ok listening ∧
    run step (start [client] listening.server) testMoves = some s ∧ s.stations[0]? = some station ∧
    station.program.main = .returned 0 ∧ historiesOf [client] listening.server testMoves 0 = history ∧
    history.made.map (fun exchange => (exchange.connection,exchange.tick.sent)) = [(0,some .READ_SUCCESS)] ∧
    KeepsReporting (lit "jill") s.network.server station.program history.made := by
  obtain ⟨listening,client,s,station,started,client_started,key,ran,found,returned,made⟩ := testMoves_end
  have plain : separator ∉ client.client_key := by
    rw [key]
    decide
  obtain ⟨pt,clients,history,read,tree,same,_,listed,_⟩ := key_decides started ran client_started rfl found plain
  have file : testEnvironment.read_xml (lit "server_config.xml") = some AuthorizedClients.testTree := by simp [testEnvironment]
  cases Option.some.inj (read.symm.trans file)
  have node : get_child firstChild AuthorizedClients.testTree (lit "clients") = some AuthorizedClients.testNode := rfl
  cases Option.some.inj (tree.symm.trans node)
  rw [key] at listed
  refine ⟨listening,client,s,station,history,started,ran,found,returned,same,by rw [← same]; exact made,listed ?_⟩
  exact ⟨_,List.mem_cons_of_mem _ List.mem_cons_self,by decide +kernel⟩

end SysInfo.Programs
