import SysInfo.Client
import SysInfo.Ranking
import SysInfo.Reports
import SysInfo.Server

/-!
# Clients and server over the network

Every tick of a client makes a connection of its own, writes its line, reads one
byte and closes the connection. The server accepts connections in the order in
which they were made. Each direction of a connection keeps its bytes in order and
hands over any non-empty prefix of them; a read or a write of the server fails only
once its connection is down, be it closed by the client or lost.
-/

namespace SysInfo.Network
open SysInfo.Text SysInfo.Separated SysInfo.Utils SysInfo.Transition SysInfo.Session SysInfo.SessionRuns

/-- A `sys_info_client_request` from `connect` to its destructor, with the bytes on
    their way in both directions. -/
structure Connection where
  line : Bytes
  /-- What `write` has still to send. -/
  unwritten : Bytes
  transit : Bytes
  replies : Bytes
  /-- The byte that `read` returned. -/
  answer : Option Byte
  down : Bool
  deriving DecidableEq

def connect (line : Bytes) : Connection := ⟨line,line,[],[],none,false⟩

/-- The connection with number `i` is the one of session `i`. -/
structure State where
  connections : List Connection
  server : Server.State

def start (authorized_clients : Clients) : State := ⟨[],Server.start authorized_clients⟩

inductive Move where
  | connect (line : Bytes)
  | accept (ok : Bool)
  | write_some (i length : Nat)
  | deliver (i length : Nat) (task : Task)
  | read_fails (i : Nat) (task : Task)
  | write_completes (i : Nat) (ok : Bool)
  | read_reply (i : Nat)
  | goes_down (i : Nat)

/-- The replies that a session called for so far. -/
def replies (i : Nat) (server : Server.State) : List Reply := (Server.logOf i server.log).filterMap Event.reply

/-- The bytes of the reply whose write is in flight. -/
def inFlight (i : Nat) (server : Server.State) : Bytes := ((replies i server).getLast?.map Reply.wire).getD []

def step (n : State) : Move → Option State
  | .connect line => some { n with connections := n.connections ++ [connect line] }
  | .accept ok => do
    guard (ok = false ∨ n.server.sessions.length < n.connections.length)
    return { n with server := ← Server.step n.server (.accept ok) }
  | .write_some i length => do
    let c ← n.connections[i]?
    guard (c.down = false ∧ 1 ≤ length ∧ length ≤ c.unwritten.length)
    let d := { c with unwritten := c.unwritten.drop length, transit := c.transit ++ c.unwritten.take length }
    return { n with connections := n.connections.set i d }
  | .deliver i length task => do
    let c ← n.connections[i]?
    guard (1 ≤ length ∧ length ≤ max_length ∧ length ≤ c.transit.length)
    let server ← Server.step n.server (.complete i (.read (.data (c.transit.take length)) task))
    return ⟨n.connections.set i { c with transit := c.transit.drop length },server⟩
  | .read_fails i task => do
    let c ← n.connections[i]?
    guard (c.down = true)
    let server ← Server.step n.server (.complete i (.read .error task))
    return ⟨n.connections.set i { c with transit := [] },server⟩
  | .write_completes i ok => do
    let c ← n.connections[i]?
    guard (ok = true ∨ c.down = true)
    let server ← Server.step n.server (.complete i (.write ok))
    return ⟨n.connections.set i { c with replies := c.replies ++ if ok then inFlight i n.server else [] },server⟩
  | .read_reply i => do
    let c ← n.connections[i]?
    guard (c.down = false ∧ c.unwritten = [] ∧ c.answer = none)
    let byte ← c.replies.head?
    return { n with connections := n.connections.set i { c with answer := some byte, replies := c.replies.tail } }
  | .goes_down i => do
    let c ← n.connections[i]?
    return { n with connections := n.connections.set i { c with down := true } }

/-! ## What a move does -/

/-- A move of the client of a connection, or of the network. -/
inductive Outside (c : Connection) : Connection → Prop where
  | write_some {length} : c.down = false → 1 ≤ length → length ≤ c.unwritten.length →
      Outside c { c with unwritten := c.unwritten.drop length, transit := c.transit ++ c.unwritten.take length }
  | read_reply {byte rest} : c.down = false → c.unwritten = [] → c.answer = none → c.replies = byte :: rest →
      Outside c { c with answer := some byte, replies := rest }
  | goes_down : Outside c { c with down := true }

/-- A completion of a session on its connection, given the bytes of the reply in
    flight. -/
inductive Inside (c : Connection) (reply : Bytes) : Completion → Connection → Prop where
  | deliver {length task} : 1 ≤ length → length ≤ c.transit.length →
      Inside c reply (.read (.data (c.transit.take length)) task) { c with transit := c.transit.drop length }
  | read_fails {task} : c.down = true → Inside c reply (.read .error task) { c with transit := [] }
  | written : Inside c reply (.write true) { c with replies := c.replies ++ reply }
  | write_fails : c.down = true → Inside c reply (.write false) c

/-- The move takes the exchange on a connection further. -/
def Move.serves (j : Nat) : Move → Bool
  | .write_some i _ => i = j
  | .deliver i _ _ => i = j
  | .write_completes i _ => i = j
  | .read_reply i => i = j
  | _ => false

inductive Steps (n : State) : Move → State → Prop where
  | connect (line : Bytes) : Steps n (.connect line) { n with connections := n.connections ++ [Network.connect line] }
  | accept {ok server} : (ok = true → n.server.sessions.length < n.connections.length) →
      Server.step n.server (.accept ok) = some server → Steps n (.accept ok) { n with server }
  | outside {move i c d} : (∀ j, move.serves j = true → i = j) → n.connections[i]? = some c → Outside c d →
      Steps n move { n with connections := n.connections.set i d }
  | inside {move i c d completion server} : (∀ j, move.serves j = true → i = j) → n.connections[i]? = some c →
      Inside c (inFlight i n.server) completion d → Server.step n.server (.complete i completion) = some server →
      Steps n move ⟨n.connections.set i d,server⟩

theorem steps_of_step {n m : State} {move : Move} (one : step n move = some m) : Steps n move m := by
  cases move with
  | connect line =>
    cases Option.some.inj one
    exact .connect line
  | accept ok =>
    obtain ⟨_,guarded,one⟩ := Option.bind_eq_some_iff.mp one
    obtain ⟨server,stepped,one⟩ := Option.bind_eq_some_iff.mp one
    cases Option.some.inj one
    refine .accept ?_ stepped
    rintro rfl
    simpa using guarded
  | write_some i length =>
    obtain ⟨c,found,one⟩ := Option.bind_eq_some_iff.mp one
    obtain ⟨_,guarded,one⟩ := Option.bind_eq_some_iff.mp one
    cases Option.some.inj one
    obtain ⟨up,some,enough⟩ : c.down = false ∧ 1 ≤ length ∧ length ≤ c.unwritten.length := by simpa using guarded
    exact .outside (by simp [Move.serves]) found (.write_some up some enough)
  | deliver i length task =>
    obtain ⟨c,found,one⟩ := Option.bind_eq_some_iff.mp one
    obtain ⟨_,guarded,one⟩ := Option.bind_eq_some_iff.mp one
    obtain ⟨server,stepped,one⟩ := Option.bind_eq_some_iff.mp one
    cases Option.some.inj one
    obtain ⟨some,_,enough⟩ : 1 ≤ length ∧ length ≤ max_length ∧ length ≤ c.transit.length := by simpa using guarded
    exact .inside (by simp [Move.serves]) found (.deliver some enough) stepped
  | read_fails i task =>
    obtain ⟨c,found,one⟩ := Option.bind_eq_some_iff.mp one
    obtain ⟨_,guarded,one⟩ := Option.bind_eq_some_iff.mp one
    obtain ⟨server,stepped,one⟩ := Option.bind_eq_some_iff.mp one
    cases Option.some.inj one
    exact .inside (by simp [Move.serves]) found (.read_fails (by simpa using guarded)) stepped
  | write_completes i ok =>
    obtain ⟨c,found,one⟩ := Option.bind_eq_some_iff.mp one
    obtain ⟨_,guarded,one⟩ := Option.bind_eq_some_iff.mp one
    obtain ⟨server,stepped,one⟩ := Option.bind_eq_some_iff.mp one
    cases Option.some.inj one
    cases ok with
    | true => exact .inside (by simp [Move.serves]) found .written stepped
    | false =>
      have down : c.down = true := by simpa using guarded
      simpa using @Steps.inside n (.write_completes i false) _ _ _ _ _ (by simp [Move.serves]) found (.write_fails down) stepped
  | read_reply i =>
    obtain ⟨c,found,one⟩ := Option.bind_eq_some_iff.mp one
    obtain ⟨_,guarded,one⟩ := Option.bind_eq_some_iff.mp one
    obtain ⟨byte,first,one⟩ := Option.bind_eq_some_iff.mp one
    cases Option.some.inj one
    obtain ⟨up,wrote,waits⟩ : c.down = false ∧ c.unwritten = [] ∧ c.answer = none := by simpa using guarded
    obtain ⟨rest,split⟩ := List.head?_eq_some_iff.mp first
    rw [split]
    exact .outside (by simp [Move.serves]) found (.read_reply up wrote waits split)
  | goes_down i =>
    obtain ⟨c,found,one⟩ := Option.bind_eq_some_iff.mp one
    cases Option.some.inj one
    exact .outside (by simp [Move.serves]) found .goes_down

/-! ## Bytes and replies of a connection -/

/-- The replies that the read completions of a session call for. -/
def answers (authorized_clients : Clients) (own : List Completion) : List Reply :=
  (reads own).filterMap fun read => answer authorized_clients read.1

/-- What a connection holds against the completions of its session: every byte of
    the line is in one place as long as no read failed, reads fail only on a
    connection that is down, and the reply bytes are those of the replies that were
    written. -/
structure Carries (authorized_clients : Clients) (c : Connection) (own : List Completion) : Prop where
  bytes : ∃ chunks failures, (reads own).map Prod.fst = chunks.map ReadResult.data ++ List.replicate failures .error ∧
    chunks.flatten <+: c.line ∧ (failures = 0 → chunks.flatten ++ c.transit ++ c.unwritten = c.line) ∧
    (0 < failures → c.down = true ∧ c.transit = []) ∧ (c.answer ≠ none → chunks ≠ [])
  replies : c.answer.toList ++ c.replies =
    ((answers authorized_clients own).take ((writes own).count true)).flatMap Reply.wire
  lost : false ∈ writes own → c.down = true

theorem carries_connect (authorized_clients : Clients) (line : Bytes) : Carries authorized_clients (connect line) [] := by
  refine ⟨⟨[],0,rfl,by simp,?_,by simp,by simp [connect]⟩,rfl,by simp [writes]⟩
  simp [connect]

private theorem counted_written {written : List Bool} (all : AllWritten written) : written.count true = written.length :=
  List.count_eq_length.mpr fun ok member => (all ok member).symm

private theorem answers_length {authorized_clients : Clients} {own : List Completion} (inRange : AllInRange (reads own)) :
    (answers authorized_clients own).length = (reads own).length := by
  simpa [answers] using congrArg List.length (answered_all authorized_clients inRange)

/-- When a read completes, every reply so far was written. -/
theorem written_before_read {authorized_clients : Clients} {own : List Completion} {v t : Session.State} {result : ReadResult}
    {task : Task} (ran : run Session.step (Session.start authorized_clients) own = some v)
    (one : Session.step v (.read result task) = some t) :
    (answers authorized_clients own).length = (writes own).count true := by
  obtain ⟨alive,cases⟩ := Session.step_cases one
  have inFlight : .read ∈ v.outstanding := by
    rcases cases with ⟨_,_,_,_,present,_⟩ | ⟨_,_,_,present,_⟩ | ⟨_,same,_⟩
    · exact present
    · exact present
    · cases same
  have phase := (run_tracks ran).phase
  rw [alive] at phase
  obtain ⟨_,inRange,written,sameLength⟩ := phase_reading phase inFlight
  rw [answers_length inRange,counted_written written,sameLength]

/-- When a write completes, it is that of the last reply. -/
theorem written_before_write {authorized_clients : Clients} {own : List Completion} {v t : Session.State} {ok : Bool}
    (ran : run Session.step (Session.start authorized_clients) own = some v)
    (one : Session.step v (.write ok) = some t) :
    (answers authorized_clients own).length = (writes own).count true + 1 := by
  obtain ⟨alive,cases⟩ := Session.step_cases one
  have inFlight : .write ∈ v.outstanding := by
    rcases cases with ⟨_,_,_,same,_⟩ | ⟨_,_,same,_⟩ | ⟨_,_,present,_⟩
    · cases same
    · cases same
    · exact present
  have phase := (run_tracks ran).phase
  rw [alive] at phase
  obtain ⟨_,inRange,written,sameLength⟩ := phase_writing phase inFlight
  rw [answers_length inRange,counted_written written,sameLength]

theorem carries_outside {authorized_clients : Clients} {c d : Connection} {own : List Completion}
    (carries : Carries authorized_clients c own) (moved : Outside c d) : Carries authorized_clients d own := by
  obtain ⟨⟨chunks,failures,results,within,whole,failed,answered⟩,replies,lost⟩ := carries
  cases moved with
  | @write_some length up _ enough =>
    refine ⟨⟨chunks,failures,results,within,?_,?_,answered⟩,replies,lost⟩
    · intro none
      rw [← whole none]
      simp
    · intro some
      rw [(failed some).1] at up
      cases up
  | @read_reply byte rest up wrote waits arrived =>
    rw [waits,arrived] at replies
    refine ⟨⟨chunks,failures,results,within,whole,failed,fun _ none => ?_⟩,replies,lost⟩
    -- A byte that arrived belongs to a reply, and that to a chunk: no read has failed.
    have intact : failures = 0 := by
      by_contra some
      rw [(failed (Nat.pos_of_ne_zero some)).1] at up
      cases up
    rw [none,intact] at results
    have silent : reads own = [] := by simpa using results
    simp [answers,silent] at replies
  | goes_down => exact ⟨⟨chunks,failures,results,within,whole,fun some => ⟨rfl,(failed some).2⟩,answered⟩,replies,fun _ => rfl⟩

theorem carries_inside {authorized_clients : Clients} {c d : Connection} {own : List Completion} {v t : Session.State}
    {reply : Bytes} {completion : Completion} (carries : Carries authorized_clients c own)
    (ran : run Session.step (Session.start authorized_clients) own = some v) (one : Session.step v completion = some t)
    (last : reply = ((answers authorized_clients own).getLast?.map Reply.wire).getD []) (moved : Inside c reply completion d) :
    Carries authorized_clients d (own ++ [completion]) := by
  obtain ⟨⟨chunks,failures,results,within,whole,failed,answered⟩,replies,lost⟩ := carries
  cases moved with
  | @deliver length task some enough =>
    have intact : failures = 0 := by
      by_contra more
      have none := (failed (Nat.pos_of_ne_zero more)).2
      simp [none] at enough
      omega
    have line := whole intact
    have cut : chunks.flatten ++ c.transit.take length ++ c.transit.drop length ++ c.unwritten = c.line := by
      rw [← line]
      simp
    refine ⟨⟨chunks ++ [c.transit.take length],0,?_,?_,?_,by simp,by simp⟩,?_,by simpa using lost⟩
    · simp [results,intact]
    · refine ⟨c.transit.drop length ++ c.unwritten,?_⟩
      rw [← cut]
      simp only [List.flatten_append,List.flatten_singleton,List.append_assoc]
    · intro _
      simpa using cut
    · have before := written_before_read ran one
      have grown : answers authorized_clients (own ++ [.read (.data (c.transit.take length)) task]) =
          answers authorized_clients own ++ (answer authorized_clients (.data (c.transit.take length))).toList := by
        cases said : answer authorized_clients (.data (c.transit.take length)) <;> simp [answers,said]
      rw [grown,writes_read,List.take_append_of_le_length (by omega)]
      exact replies
  | @read_fails task down =>
    refine ⟨⟨chunks,failures + 1,?_,within,by omega,fun _ => ⟨down,rfl⟩,answered⟩,?_,by simpa using lost⟩
    · rw [reads_read,List.map_append,results,List.append_assoc,List.replicate_succ']
      rfl
    · have before := written_before_read ran one
      have grown : answers authorized_clients (own ++ [.read .error task]) =
          answers authorized_clients own ++ [.READ_FAILURE] := by simp [answers,answer]
      rw [grown,writes_read,List.take_append_of_le_length (by omega)]
      exact replies
  | written =>
    refine ⟨⟨chunks,failures,by simpa using results,within,whole,failed,answered⟩,?_,by simpa using lost⟩
    have before := written_before_write ran one
    have same : answers authorized_clients (own ++ [.write true]) = answers authorized_clients own := by simp [answers]
    rw [same,writes_write,List.count_append]
    rcases List.eq_nil_or_concat (answers authorized_clients own) with none | ⟨earlier,final,split⟩
    · simp [none] at before
    · rw [split,List.concat_eq_append] at before last replies ⊢
      simp only [List.length_append,List.length_singleton] at before
      have count : (writes own).count true = earlier.length := by omega
      rw [count] at replies ⊢
      rw [List.take_left' rfl] at replies
      simp only [List.count_singleton_self,List.getLast?_concat,Option.map_some,Option.getD_some] at last ⊢
      rw [← List.append_assoc,replies,last,List.take_of_length_le (by simp)]
      simp
  | write_fails down =>
    refine ⟨⟨chunks,failures,by simpa using results,within,whole,failed,answered⟩,?_,fun _ => down⟩
    have same : answers authorized_clients (own ++ [.write false]) = answers authorized_clients own := by simp [answers]
    rw [same,writes_write,List.count_append]
    simpa using replies

/-! ## Every connection of every run -/

/-- The network over a run of the server. -/
structure Sound (authorized_clients : Clients) (n : State) (inputs : List Server.Input) : Prop where
  server : run Server.step (Server.start authorized_clients) inputs = some n.server
  accepted : n.server.sessions.length ≤ n.connections.length
  carries : ∀ i c, n.connections[i]? = some c → Carries authorized_clients c (Server.inputsOf i inputs)

theorem replies_eq {authorized_clients : Clients} {inputs : List Server.Input} {server : Server.State}
    (ran : run Server.step (Server.start authorized_clients) inputs = some server) (i : Nat) :
    replies i server = answers authorized_clients (Server.inputsOf i inputs) := by
  unfold replies answers
  rw [Server.logOf_projection Event.reply rfl ran,List.filterMap_eq_flatMap_toList]
  simp only [respond_reply]

/-- The completion of a session is a step of that session alone. -/
theorem own_step {authorized_clients : Clients} {inputs : List Server.Input} {server : Server.State} {i : Nat}
    {completion : Completion}
    (ran : run Server.step (Server.start authorized_clients) (inputs ++ [.complete i completion]) = some server) :
    ∃ v t, run Session.step (Session.start authorized_clients) (Server.inputsOf i inputs) = some v ∧
      Session.step v completion = some t := by
  rcases Server.run_view ran i with ⟨t,_,alone,_⟩ | ⟨_,none,_⟩
  · rw [Server.inputsOf_self] at alone
    obtain ⟨v,before,one⟩ := run_snoc_some.mp alone
    exact ⟨v,t,before,one⟩
  · simp at none

/-- A session that was not accepted has no completions. -/
theorem future_silent {authorized_clients : Clients} {inputs : List Server.Input} {server : Server.State} {i : Nat}
    (ran : run Server.step (Server.start authorized_clients) inputs = some server) (later : server.sessions.length ≤ i) :
    Server.inputsOf i inputs = [] := by
  rcases Server.run_view ran i with ⟨v,inFlight,_⟩ | ⟨_,none,_⟩
  · have inside := (List.getElem?_eq_some_iff.mp inFlight).1
    omega
  · exact none

theorem length_accept {s t : Server.State} {ok : Bool} (one : Server.step s (.accept ok) = some t) :
    t.sessions.length = s.sessions.length + if ok then 1 else 0 := by
  rcases Server.step_cases one with ⟨same,rfl⟩ | ⟨same,rfl⟩ | ⟨_,_,_,_,same,_⟩
  · cases same
    simp
  · cases same
    simp
  · cases same

theorem length_complete {s t : Server.State} {i : Nat} {completion : Completion}
    (one : Server.step s (.complete i completion) = some t) : t.sessions.length = s.sessions.length := by
  rcases Server.step_cases one with ⟨same,_⟩ | ⟨same,_⟩ | ⟨_,_,_,_,_,_,_,rfl⟩
  · cases same
  · cases same
  · simp

theorem sound_step {authorized_clients : Clients} {n m : State} {inputs : List Server.Input} {move : Move}
    (sound : Sound authorized_clients n inputs) (one : Steps n move m) :
    ∃ more, Sound authorized_clients m (inputs ++ more) := by
  obtain ⟨ran,accepted,carries⟩ := sound
  cases one with
  | connect line =>
    refine ⟨[],by simpa using ran,by simp; omega,?_⟩
    intro i c found
    rw [List.append_nil]
    rcases Nat.lt_or_ge i n.connections.length with earlier | later
    · rw [List.getElem?_append_left earlier] at found
      exact carries i c found
    · have new : i = n.connections.length := by
        have inside := (List.getElem?_eq_some_iff.mp found).1
        simp at inside
        omega
      subst new
      have same : c = connect line := by simpa using found.symm
      rw [future_silent ran accepted,same]
      exact carries_connect authorized_clients line
  | @accept ok server room stepped =>
    refine ⟨[.accept ok],run_snoc_some.mpr ⟨_,ran,stepped⟩,?_,?_⟩
    · show server.sessions.length ≤ n.connections.length
      rw [length_accept stepped]
      by_cases good : ok = true
      · have more := room good
        rw [if_pos good]
        omega
      · rw [if_neg good]
        exact accepted
    · intro i c found
      rw [Server.inputsOf_accept]
      exact carries i c found
  | @outside _ i c d _ found moved =>
    refine ⟨[],by simpa using ran,by simpa using accepted,?_⟩
    intro j e found'
    rw [List.append_nil]
    by_cases own : i = j
    · subst own
      have same : d = e := by simpa [(List.getElem?_eq_some_iff.mp found).1] using found'
      rw [← same]
      exact carries_outside (carries i c found) moved
    · simp only [List.getElem?_set_ne own] at found'
      exact carries j e found'
  | @inside _ i c d completion server _ found moved stepped =>
    have ran' := run_snoc_some.mpr ⟨_,ran,stepped⟩
    refine ⟨[.complete i completion],ran',?_,?_⟩
    · simpa [length_complete stepped] using accepted
    · intro j e found'
      by_cases own : i = j
      · subst own
        have same : d = e := by simpa [(List.getElem?_eq_some_iff.mp found).1] using found'
        obtain ⟨v,t,alone,one⟩ := own_step ran'
        rw [← same,Server.inputsOf_self]
        refine carries_inside (carries i c found) alone one ?_ moved
        rw [inFlight,replies_eq ran]
      · simp only [List.getElem?_set_ne own] at found'
        rw [Server.inputsOf_other own]
        exact carries j e found'

theorem run_sound {authorized_clients : Clients} {moves : List Move} {n : State}
    (ran : run step (start authorized_clients) moves = some n) : ∃ inputs, Sound authorized_clients n inputs := by
  refine run_invariant (fun n => ∃ inputs, Sound authorized_clients n inputs) ?_ ran ⟨[],rfl,le_rfl,by simp [start]⟩
  rintro n move m ⟨inputs,sound⟩ one
  obtain ⟨more,sound'⟩ := sound_step sound (steps_of_step one)
  exact ⟨inputs ++ more,sound'⟩

/-! ## What a client is told and what is inserted -/

/-- A first chunk that the parser fails on is the last. -/
theorem phase_first {authorized_clients : Clients} {results : List (ReadResult × Task)} {written : List Bool}
    {outstanding : List Op} {fault : Bool} (phase : Phase authorized_clients results written outstanding fault)
    {first : ReadResult × Task} {rest : List (ReadResult × Task)} (split : results = first :: rest) :
    InRange first.1 ∨ rest = [] := by
  cases phase with
  | reading inRange _ _ => exact .inl (inRange first (by simp [split]))
  | writing inRange _ _ => exact .inl (inRange first (by simp [split]))
  | ended inRange _ _ => exact .inl (inRange first (by simp [split]))
  | @faulted results written result task inRange _ _ _ =>
    cases results with
    | nil => exact .inr (List.cons.inj split).2.symm
    | cons earlier results =>
      obtain ⟨rfl,_⟩ := List.cons.inj split
      exact .inl (inRange _ (by simp))

theorem own_phase {authorized_clients : Clients} {inputs : List Server.Input} {server : Server.State}
    (ran : run Server.step (Server.start authorized_clients) inputs = some server) (i : Nat) :
    ∃ outstanding fault, Phase authorized_clients (reads (Server.inputsOf i inputs)) (writes (Server.inputsOf i inputs))
      outstanding fault := by
  rcases Server.run_view ran i with ⟨v,_,alone,_⟩ | ⟨_,none,_⟩
  · exact ⟨_,_,(run_tracks alone).phase⟩
  · rw [none]
    exact ⟨_,_,.reading (by simp [reads,AllInRange]) (by simp [writes,AllWritten]) rfl⟩

theorem wire_singleton (reply : Reply) : ∃ byte, reply.wire = [byte] := by
  cases reply
  · exact ⟨48,by decide⟩
  · exact ⟨49,by decide⟩
  · exact ⟨50,by decide⟩

theorem wire_injective {first second : Reply} (same : first.wire = second.wire) : first = second := by
  revert same
  cases first <;> cases second <;> decide

/-- The byte that a client reads is that of the reply to its first chunk. -/
theorem answered_first {authorized_clients : Clients} {c : Connection} {own : List Completion} {outstanding : List Op}
    {fault : Bool} {byte : Byte} (carries : Carries authorized_clients c own)
    (phase : Phase authorized_clients (reads own) (writes own) outstanding fault) (answered : c.answer = some byte) :
    ∃ chunk task more reply, reads own = (.data chunk,task) :: more ∧ chunk <+: c.line ∧
      answer authorized_clients (.data chunk) = some reply ∧ reply.wire = [byte] := by
  obtain ⟨⟨chunks,failures,results,⟨back,within⟩,_,_,some⟩,replies,_⟩ := carries
  obtain ⟨chunk,rest,rfl⟩ := List.exists_cons_of_ne_nil (some (by rw [answered]; nofun))
  obtain ⟨⟨result,task⟩,more,first⟩ : ∃ read more, reads own = read :: more := by
    refine List.exists_cons_of_ne_nil fun none => ?_
    rw [none] at results
    simp at results
  rw [first] at results
  obtain ⟨rfl,_⟩ := List.cons.inj results
  rw [answered] at replies
  have start : chunk <+: c.line := ⟨rest.flatten ++ back,by rw [← within,List.flatten_cons,List.append_assoc]⟩
  cases said : answer authorized_clients (.data chunk) with
  | none =>
    exfalso
    rcases phase_first phase first with inside | rfl
    · obtain ⟨c_detail,parsed⟩ := Option.isSome_iff_exists.mp inside
      simp [answer,parsed] at said
    · simp [answers,first,said] at replies
  | some reply =>
    obtain ⟨byte',wire⟩ := wire_singleton reply
    have head : byte = byte' := by
      cases count : (writes own).count true with
      | zero => simp [count] at replies
      | succ k =>
        have grown : answers authorized_clients own = reply :: more.filterMap fun read => answer authorized_clients read.1 := by
          simp [answers,first,said]
        rw [grown,count,List.take_succ_cons,List.flatMap_cons,wire] at replies
        exact (List.cons.inj replies).1
    exact ⟨chunk,task,more,reply,first,start,said,by rw [wire,head]⟩

/-- The reply to a start of a line that can be parsed looks at the key of the line. -/
theorem answer_of_start {authorized_clients : Clients} {chunk line : Bytes} {reply : Reply} (start : chunk <+: line)
    (said : answer authorized_clients (.data chunk) = some reply) :
    reply = if firstField separator line ∈ authorized_clients then .READ_SUCCESS else .NOT_AUTHORIZED := by
  obtain ⟨c_detail,parsed,rfl⟩ := Option.map_eq_some_iff.mp said
  have counts := (parse_isSome_iff chunk).mp (by rw [parsed]; rfl)
  obtain ⟨back,rfl⟩ := start
  rw [parse_client_key parsed,firstField_append_of_mem (List.count_pos_iff.mp (by omega))]

theorem run_answered {authorized_clients : Clients} {moves : List Move} {n : State} {i : Nat} {c : Connection} {byte : Byte}
    (ran : run step (start authorized_clients) moves = some n) (found : n.connections[i]? = some c)
    (answered : c.answer = some byte) :
    Reply.wire (if firstField separator c.line ∈ authorized_clients then .READ_SUCCESS else .NOT_AUTHORIZED) = [byte] := by
  obtain ⟨inputs,sound⟩ := run_sound ran
  obtain ⟨outstanding,fault,phase⟩ := own_phase sound.server i
  obtain ⟨chunk,task,more,reply,_,start,said,wire⟩ := answered_first (sound.carries i c found) phase answered
  rw [← answer_of_start start said,wire]

/-- The client of a connection was told a reply. -/
def Told (c : Connection) (reply : Reply) : Prop := c.answer.toList = reply.wire

theorem told_cases {c : Connection} {reply : Reply} (told : Told c reply) : ∃ byte, c.answer = some byte ∧ reply.wire = [byte] := by
  obtain ⟨byte,wire⟩ := wire_singleton reply
  unfold Told at told
  rw [wire] at told
  exact ⟨byte,Option.toList_eq_singleton_iff.mp told,wire⟩

theorem run_told {authorized_clients : Clients} {moves : List Move} {n : State} {i : Nat} {c : Connection} {reply : Reply}
    (ran : run step (start authorized_clients) moves = some n) (found : n.connections[i]? = some c) (told : Told c reply) :
    reply = if firstField separator c.line ∈ authorized_clients then .READ_SUCCESS else .NOT_AUTHORIZED := by
  obtain ⟨byte,answered,wire⟩ := told_cases told
  apply wire_injective
  rw [run_answered ran found answered,wire]

/-- The branch that a client takes with an intact reply. -/
def branch (authorized : Bool) (behind : Byte) : Client.Branch :=
  if authorized then .success else if behind = 0 then .not_authorized else .success

/-- Whatever the interleaving: the byte that a client reads tells it whether the key
    of its line is authorized, and never of a failure; so its branch is the one for
    an authorized key, or, where a NUL is behind the byte, the one for a stranger. -/
theorem answered_by_key {authorized_clients : Clients} {moves : List Move} {n : State} {i : Nat} {c : Connection} {byte : Byte}
    (ran : run step (start authorized_clients) moves = some n) (found : n.connections[i]? = some c)
    (answered : c.answer = some byte) : ∃ reply : Reply, reply.wire = [byte] ∧
      reply = (if firstField separator c.line ∈ authorized_clients then .READ_SUCCESS else .NOT_AUTHORIZED) ∧
      ∀ stack, Client.periodic_work ⟨true,true,some reply,stack⟩ =
        some (branch (firstField separator c.line ∈ authorized_clients) stack.2.1) := by
  refine ⟨_,run_answered ran found answered,rfl,?_⟩
  intro stack
  rw [Client.periodic_work_eq]
  by_cases authorized : firstField separator c.line ∈ authorized_clients
  · simp [Client.Tick.sent,branch,authorized]
  · by_cases zero : stack.2.1 = 0 <;> simp [Client.Tick.sent,branch,authorized,zero]

/-- A client whose line arrives in one piece. -/
def exchanged (line : Bytes) : List Move :=
  [.connect line,.accept true,.write_some 0 line.length,.deliver 0 line.length ⟨.async,.returned⟩,.write_completes 0 true,
    .read_reply 0]

theorem exchanged_ends : ∃ n, run step (start testClients) (exchanged testReport) = some n ∧
    n.connections[0]? = some ⟨testReport,[],[],[],some 48,false⟩ := by
  have ends : (run step (start testClients) (exchanged testReport)).map State.connections = some [⟨testReport,[],[],[],some 48,false⟩] := by
    decide +kernel
  obtain ⟨n,ran,connections⟩ := Option.map_eq_some_iff.mp ends
  exact ⟨n,ran,by rw [connections]; rfl⟩

theorem answered_by_key_report : ∃ n, run step (start testClients) (exchanged testReport) = some n ∧ ∃ reply : Reply,
    reply.wire = [48] ∧ reply = .READ_SUCCESS ∧ ∀ stack, Client.periodic_work ⟨true,true,some reply,stack⟩ = some .success := by
  obtain ⟨n,ran,found⟩ := exchanged_ends
  obtain ⟨reply,wire,key,taken⟩ := answered_by_key ran found rfl
  have authorized : firstField separator testReport ∈ testClients := by decide
  refine ⟨n,ran,reply,wire,by rw [key]; exact if_pos authorized,fun stack => ?_⟩
  rw [taken stack]
  simp [branch,authorized]

/-- A start of a line with all of its separators has its fields but for an end of
    the last one. -/
theorem start_of_line {key memory cpu processes time start back : Bytes} (plain : separator ∉ key) (m : separator ∉ memory)
    (c : separator ∉ cpu) (p : separator ∉ processes) (four : 4 ≤ start.count separator)
    (same : start ++ back = Reports.line key memory cpu processes time) :
    ∃ shorter, start = Reports.line key memory cpu processes shorter ∧ shorter ++ back = time := by
  have none : ∀ {field : Bytes}, separator ∉ field → field.count separator = 0 := List.count_eq_zero.mpr
  obtain ⟨first,rfl,behindKey⟩ := start_behind_field plain (List.count_pos_iff.mp (by omega)) same
  have three : 3 ≤ first.count separator := by simpa [none plain] using four
  obtain ⟨second,rfl,behindMemory⟩ := start_behind_field m (List.count_pos_iff.mp (by omega)) behindKey
  have two : 2 ≤ second.count separator := by simpa [none m] using three
  obtain ⟨third,rfl,behindCpu⟩ := start_behind_field c (List.count_pos_iff.mp (by omega)) behindMemory
  have one : 1 ≤ third.count separator := by simpa [none c] using two
  obtain ⟨fourth,rfl,behindProcesses⟩ := start_behind_field p (List.count_pos_iff.mp one) behindCpu
  exact ⟨fourth,rfl,behindProcesses⟩

/-- The details that a session inserted. -/
def inserted (i : Nat) (server : Server.State) : List ClientDetail := (Server.logOf i server.log).filterMap Event.detail

theorem inserted_eq {authorized_clients : Clients} {inputs : List Server.Input} {server : Server.State}
    (ran : run Server.step (Server.start authorized_clients) inputs = some server) (i : Nat) :
    inserted i server = (reads (Server.inputsOf i inputs)).filterMap fun read => stored authorized_clients read.1 := by
  unfold inserted
  rw [Server.logOf_projection Event.detail rfl ran,List.filterMap_eq_flatMap_toList]
  simp only [respond_detail]

theorem stored_of_few {authorized_clients : Clients} {result : ReadResult}
    (few : ∀ chunk, result = .data chunk → chunk.count separator < 4) : stored authorized_clients result = none := by
  cases result with
  | error => rfl
  | data chunk =>
    have fails : parse_to_client_detail chunk = none := by
      by_contra parses
      have counts := (parse_isSome_iff chunk).mp (Option.isSome_iff_ne_none.mpr parses)
      have := few chunk rfl
      omega
    simp [stored,fails]

/-- However the network cuts a line, the details that are inserted are none or that of
    its first chunk. -/
theorem inserted_cases {authorized_clients : Clients} {moves : List Move} {n : State} {i : Nat} {c : Connection}
    {key memory cpu processes time : Bytes} (ran : run step (start authorized_clients) moves = some n)
    (found : n.connections[i]? = some c) (line : c.line = Reports.line key memory cpu processes time)
    (plain : ∀ field ∈ [key,memory,cpu,processes,time], separator ∉ field) :
    inserted i n.server = [] ∨ key ∈ authorized_clients ∧ ∃ shorter, shorter <+: time ∧ inserted i n.server =
      [⟨key,Reports.number memory,Reports.number cpu,Reports.number processes,shorter.filter (· ≠ newline)⟩] := by
  obtain ⟨inputs,sound⟩ := run_sound ran
  obtain ⟨⟨chunks,failures,results,⟨back,within⟩,_,_,_⟩,_,_⟩ := sound.carries i c found
  obtain ⟨outstanding,fault,phase⟩ := own_phase sound.server i
  rw [inserted_eq sound.server i]
  generalize Server.inputsOf i inputs = own at *
  cases first : reads own with
  | nil => exact .inl rfl
  | cons read more =>
    obtain ⟨result,task⟩ := read
    rw [first] at results
    cases chunks with
    | nil =>
      -- Only failed reads.
      left
      refine List.filterMap_eq_nil_iff.mpr fun other member => ?_
      have failed : other.1 ∈ List.replicate failures ReadResult.error := by
        rw [List.map_nil,List.nil_append] at results
        rw [← results]
        exact List.mem_map_of_mem member
      rw [(List.mem_replicate.mp failed).2]
      rfl
    | cons chunk rest =>
      obtain ⟨rfl,others⟩ := List.cons.inj results
      have others : more.map Prod.fst = rest.map ReadResult.data ++ List.replicate failures .error := others
      by_cases inside : InRange (.data chunk)
      · have four := (parse_isSome_iff chunk).mp inside
        rw [line,List.flatten_cons,List.append_assoc] at within
        have fields : ∀ field ∈ [key,memory,cpu,processes,time], field.count separator = 0 :=
          fun field member => List.count_eq_zero.mpr (plain field member)
        have total := congrArg (List.count separator) within
        simp only [Reports.line,List.count_append,List.count_cons_self,fields _ (List.mem_cons_self),
          fields memory (by simp),fields cpu (by simp),fields processes (by simp),fields time (by simp)] at total
        have silent : more.filterMap (fun read => stored authorized_clients read.1) = [] := by
          refine List.filterMap_eq_nil_iff.mpr fun other member => stored_of_few fun piece same => ?_
          have among : ReadResult.data piece ∈ rest.map ReadResult.data ++ List.replicate failures .error := by
            rw [← others,← same]
            exact List.mem_map_of_mem member
          have later : piece ∈ rest := by simpa using among
          have bound : piece.count separator ≤ rest.flatten.count separator :=
            (List.sublist_flatten_of_mem later).count_le _
          omega
        obtain ⟨shorter,rfl,ends⟩ := start_of_line (plain key (by simp)) (plain memory (by simp)) (plain cpu (by simp))
          (plain processes (by simp)) four within
        have parsed := Reports.parse_line (plain key (by simp)) (plain memory (by simp)) (plain cpu (by simp))
          (plain processes (by simp)) shorter
        have time' : separator ∉ shorter := fun member => plain time (by simp) (ends ▸ List.mem_append_left _ member)
        rw [firstField_of_not_mem time'] at parsed
        rw [List.filterMap_cons]
        by_cases authorized : key ∈ authorized_clients
        · right
          refine ⟨authorized,shorter,⟨_,ends⟩,?_⟩
          rw [silent]
          simp [stored,parsed,authorized]
        · left
          rw [silent]
          simp [stored,parsed,authorized]
      · -- The first chunk was not parsed, and no other came.
        left
        obtain rfl := (phase_first phase first).resolve_left inside
        have fails : parse_to_client_detail chunk = none := by simpa [InRange] using inside
        simp [stored,fails]

theorem inserted_of_success {authorized_clients : Clients} {moves : List Move} {n : State} {i : Nat} {c : Connection}
    (ran : run step (start authorized_clients) moves = some n) (found : n.connections[i]? = some c)
    (told : Told c .READ_SUCCESS) : inserted i n.server ≠ [] := by
  obtain ⟨inputs,sound⟩ := run_sound ran
  obtain ⟨outstanding,fault,phase⟩ := own_phase sound.server i
  obtain ⟨byte,answered,success⟩ := told_cases told
  obtain ⟨chunk,task,more,reply,first,_,said,wire⟩ := answered_first (sound.carries i c found) phase answered
  obtain rfl := wire_injective (wire.trans success.symm)
  obtain ⟨c_detail,parsed,replied⟩ := Option.map_eq_some_iff.mp said
  have authorized : c_detail.client_key ∈ authorized_clients := by
    by_contra stranger
    rw [if_neg stranger] at replied
    cases replied
  rw [inserted_eq sound.server i,first,List.filterMap_cons]
  simp [stored,parsed,authorized]

/-- Whatever the interleaving and however the network cuts its line: a connection
    inserts at most one detail, for a key of the map only, and it has the key and the
    numbers of the line and a start of its time. A client that was told success has
    inserted one. -/
theorem inserted_once {authorized_clients : Clients} {moves : List Move} {n : State} {i : Nat} {c : Connection}
    {key memory cpu processes time : Bytes} (ran : run step (start authorized_clients) moves = some n)
    (found : n.connections[i]? = some c) (line : c.line = Reports.line key memory cpu processes time)
    (plain : ∀ field ∈ [key,memory,cpu,processes,time], separator ∉ field) :
    inserted i n.server = [] ∧ ¬ Told c .READ_SUCCESS ∨
    key ∈ authorized_clients ∧ ∃ shorter, shorter <+: time ∧ inserted i n.server =
      [⟨key,Reports.number memory,Reports.number cpu,Reports.number processes,shorter.filter (· ≠ newline)⟩] :=
  (inserted_cases ran found line plain).imp_left fun none => ⟨none,fun told => inserted_of_success ran found told none⟩

theorem inserted_once_report : ∃ n, run step (start testClients) (exchanged testReport) = some n ∧ lit "jill" ∈ testClients ∧
    ∃ shorter, shorter <+: lit "Sat Nov 26 17:25:44 2016" ∧ inserted 0 n.server =
      [⟨lit "jill",Reports.number (lit "44"),Reports.number (lit "89"),Reports.number (lit "11"),shorter.filter (· ≠ newline)⟩] := by
  obtain ⟨n,ran,found⟩ := exchanged_ends
  have told : Told ⟨testReport,[],[],[],some 48,false⟩ .READ_SUCCESS := by
    unfold Told
    decide
  have line : testReport = Reports.line (lit "jill") (lit "44") (lit "89") (lit "11") (lit "Sat Nov 26 17:25:44 2016") := by decide
  rcases inserted_once ran found line (by decide) with ⟨_,untold⟩ | inserted
  · exact absurd told untold
  · exact ⟨n,ran,inserted⟩

/-! ## No client is left waiting -/

/-- The exchange on a connection is over: its client has a byte, the connection was
    lost, or the parser indexed out of range. -/
def Settled (i : Nat) (n : State) : Prop :=
  n.server.fault = true ∨ ∃ c, n.connections[i]? = some c ∧ (c.down = true ∨ c.answer ≠ none)

/-- What is left to do until the reply is read. -/
def left (i : Nat) (n : State) : Nat :=
  ((n.connections[i]?.map fun c => 3 * c.unwritten.length + 2 * c.transit.length).getD 0) +
    if n.server.sessions[i]? = some [.write] then 1 else 0

/-- A connection that was accepted and has a line. -/
structure Exchanging (authorized_clients : Clients) (i : Nat) (n : State) : Prop where
  sound : ∃ inputs, Sound authorized_clients n inputs
  accepted : i < n.server.sessions.length
  line : ∃ c, n.connections[i]? = some c ∧ c.line ≠ []

/-- What every move keeps of a connection. -/
theorem connection_step {n m : State} {move : Move} {i : Nat} {c : Connection} (one : Steps n move m)
    (found : n.connections[i]? = some c) : ∃ d, m.connections[i]? = some d ∧ d.line = c.line ∧
      (c.down = true → d.down = true ∧ d.answer = c.answer) ∧ (c.answer ≠ none → d.answer ≠ none) := by
  have inside := (List.getElem?_eq_some_iff.mp found).1
  have same : ∀ {d : Connection}, d.down = c.down → d.answer = c.answer → c.down = true → d.down = true ∧ d.answer = c.answer :=
    fun down answer is => ⟨down.trans is,answer⟩
  have elsewhere : ∀ {j : Nat} {d : Connection}, j ≠ i → (n.connections.set j d)[i]? = some c := by
    intro j d other
    rw [List.getElem?_set_ne other,found]
  cases one with
  | connect line => exact ⟨c,by rw [List.getElem?_append_left inside,found],rfl,same rfl rfl,id⟩
  | accept _ _ => exact ⟨c,found,rfl,same rfl rfl,id⟩
  | @outside _ j c' d _ found' moved =>
    by_cases own : j = i
    · subst own
      cases found.symm.trans found'
      refine ⟨d,by simp [inside],?_⟩
      cases moved with
      | write_some _ _ _ => exact ⟨rfl,same rfl rfl,id⟩
      | read_reply up _ _ _ =>
        refine ⟨rfl,fun down => ?_,fun _ => nofun⟩
        rw [up] at down
        cases down
      | goes_down => exact ⟨rfl,fun _ => ⟨rfl,rfl⟩,id⟩
    · exact ⟨c,elsewhere own,rfl,same rfl rfl,id⟩
  | @inside _ j c' d _ _ _ found' moved _ =>
    by_cases own : j = i
    · subst own
      cases found.symm.trans found'
      refine ⟨d,by simp [inside],?_⟩
      cases moved <;> exact ⟨rfl,same rfl rfl,id⟩
    · exact ⟨c,elsewhere own,rfl,same rfl rfl,id⟩

/-- The completion of a session, seen from its operations in flight. -/
theorem complete_cases {s t : Server.State} {i : Nat} {completion : Completion}
    (one : Server.step s (.complete i completion) = some t) : s.fault = false ∧ ∃ outstanding u,
      s.sessions[i]? = some outstanding ∧ Session.step ⟨s.authorized_clients,outstanding,[],s.fault⟩ completion = some u ∧
      t.sessions = s.sessions.set i u.outstanding := by
  rcases Server.step_cases one with ⟨same,_⟩ | ⟨same,_⟩ | ⟨j,other,outstanding,u,same,found,stepped,rfl⟩
  · cases same
  · cases same
  · cases same
    exact ⟨(Session.step_cases stepped).1,outstanding,u,found,stepped,rfl⟩

theorem complete_enabled {s : Server.State} {i : Nat} {outstanding : List Op} {completion : Completion}
    (alive : s.fault = false) (found : s.sessions[i]? = some outstanding) (inFlight : completion.op ∈ outstanding) :
    ∃ t, Server.step s (.complete i completion) = some t := by
  obtain ⟨u,stepped⟩ :=
    @Session.step_enabled ⟨s.authorized_clients,outstanding,[],s.fault⟩ completion alive inFlight
  exact ⟨_,by simp only [Server.step,found,stepped]; rfl⟩

theorem exchanging_step {authorized_clients : Clients} {n m : State} {move : Move} {i : Nat}
    (exchanging : Exchanging authorized_clients i n) (one : step n move = some m) : Exchanging authorized_clients i m := by
  obtain ⟨⟨inputs,sound⟩,accepted,c,found,line⟩ := exchanging
  have steps := steps_of_step one
  obtain ⟨more,sound'⟩ := sound_step sound steps
  obtain ⟨d,found',same,_⟩ := connection_step steps found
  refine ⟨⟨_,sound'⟩,?_,d,found',by rw [same]; exact line⟩
  cases steps with
  | connect _ => exact accepted
  | accept _ stepped =>
    have length := length_accept stepped
    dsimp only
    omega
  | outside _ _ _ => exact accepted
  | inside _ _ _ stepped => rw [length_complete stepped]; exact accepted

/-- An exchange that is over stays so. -/
theorem settled_step {n m : State} {move : Move} {i : Nat} (one : step n move = some m) (settled : Settled i n) :
    Settled i m := by
  have steps := steps_of_step one
  rcases settled with fault | ⟨c,found,ended⟩
  · left
    -- After a fault the server takes no step.
    cases steps with
    | connect _ => exact fault
    | accept _ stepped => simp [Server.step,fault] at stepped
    | outside _ _ _ => exact fault
    | inside _ _ _ stepped =>
      rw [(complete_cases stepped).1] at fault
      cases fault
  · right
    obtain ⟨d,found',_,down,answer⟩ := connection_step steps found
    exact ⟨d,found',ended.imp (fun is => (down is).1) answer⟩

theorem left_step {authorized_clients : Clients} {n m : State} {move : Move} {i : Nat}
    (exchanging : Exchanging authorized_clients i n) (one : step n move = some m) (open' : ¬ Settled i m) :
    (if move.serves i then 1 else 0) + left i m ≤ left i n := by
  obtain ⟨⟨inputs,sound⟩,accepted,c,found,_⟩ := exchanging
  have inside := (List.getElem?_eq_some_iff.mp found).1
  have most : (if move.serves i = true then 1 else 0) ≤ 1 := by split <;> omega
  cases steps_of_step one with
  | connect line => simp [left,Move.serves,List.getElem?_append_left inside]
  | @accept ok server _ stepped =>
    have same : server.sessions[i]? = n.server.sessions[i]? := by
      rcases Server.step_cases stepped with ⟨_,rfl⟩ | ⟨_,rfl⟩ | ⟨_,_,_,_,same,_⟩
      · exact List.getElem?_append_left accepted
      · rfl
      · cases same
    simp [left,Move.serves,same]
  | @outside _ j c' d own found' moved =>
    by_cases here : j = i
    · subst here
      cases found.symm.trans found'
      cases moved with
      | @write_some length _ some enough =>
        simp only [left,found,List.getElem?_set_self inside,Option.map_some,Option.getD_some,List.length_drop,
          List.length_append,List.length_take,Nat.min_eq_left enough]
        omega
      | read_reply _ _ _ _ => exact absurd (.inr ⟨_,List.getElem?_set_self inside,.inr nofun⟩) open'
      | goes_down => exact absurd (.inr ⟨_,List.getElem?_set_self inside,.inl rfl⟩) open'
    · have other : move.serves i = false := by
        by_contra serves
        exact here (own i (by simpa using serves))
      simp [left,other,List.getElem?_set_ne here]
  | @inside _ j c' d completion server own found' moved stepped =>
    obtain ⟨_,outstanding,u,flight,alone,sessions⟩ := complete_cases stepped
    by_cases here : j = i
    · subst here
      cases found.symm.trans found'
      simp only [left,found,List.getElem?_set_self inside,Option.map_some,Option.getD_some,sessions,
        List.getElem?_set_self accepted]
      cases moved with
      | @deliver length _ some enough =>
        have indicator : (if u.outstanding = [.write] then 1 else 0) ≤ 1 := by split <;> omega
        simp only [List.length_drop,Option.some.injEq]
        omega
      | read_fails down => exact absurd (.inr ⟨_,List.getElem?_set_self inside,.inl down⟩) open'
      | written =>
        -- The write was in flight, and the next operation is a read.
        obtain ⟨v,t,ran,one'⟩ := own_step (run_snoc_some.mpr ⟨_,sound.server,stepped⟩)
        rcases Server.run_view sound.server j with ⟨w,inFlight,alone',_,alive⟩ | ⟨later,_⟩
        · cases ran.symm.trans alone'
          cases Option.some.inj (inFlight.symm.trans flight)
          obtain ⟨running,cases⟩ := Session.step_cases one'
          have phase := (run_tracks ran).phase
          rw [running] at phase
          have written : .write ∈ v.outstanding := by
            rcases cases with ⟨_,_,_,same,_⟩ | ⟨_,_,same,_⟩ | ⟨_,_,present,_⟩
            · cases same
            · cases same
            · exact present
          have only := (phase_writing phase written).1
          have next : u.outstanding = [.read] := by
            rcases (Session.step_cases alone).2 with ⟨_,_,_,same,_⟩ | ⟨_,_,same,_⟩ | ⟨ok,same,_,rfl⟩
            · cases same
            · cases same
            · cases same
              simp [only]
          rw [flight,only,next]
          simp only [if_true,reduceCtorEq,if_false,Option.some.injEq,List.cons.injEq,false_and]
          omega
        · omega
      | write_fails down => exact absurd (.inr ⟨_,List.getElem?_set_self inside,.inl down⟩) open'
    · have other : move.serves i = false := by
        by_contra serves
        exact here (own i (by simpa using serves))
      simp [left,other,List.getElem?_set_ne here,sessions]

/-- The state of an exchange that is not over. -/
theorem exchange_cases {authorized_clients : Clients} {n : State} {i : Nat} {c : Connection}
    (exchanging : Exchanging authorized_clients i n) (found : n.connections[i]? = some c) (open' : ¬ Settled i n) :
    n.server.fault = false ∧ c.down = false ∧ c.answer = none ∧
      (n.server.sessions[i]? = some [.write] ∨
        n.server.sessions[i]? = some [.read] ∧ (c.transit ≠ [] ∨ c.unwritten ≠ [] ∨ c.unwritten = [] ∧ c.replies ≠ [])) := by
  obtain ⟨⟨inputs,sound⟩,accepted,_,found',line⟩ := exchanging
  cases found.symm.trans found'
  have alive : n.server.fault = false := by
    by_contra fault
    exact open' (.inl (by simpa using fault))
  have up : c.down = false := by
    by_contra down
    exact open' (.inr ⟨c,found,.inl (by simpa using down)⟩)
  have waits : c.answer = none := by
    by_contra answered
    exact open' (.inr ⟨c,found,.inr answered⟩)
  refine ⟨alive,up,waits,?_⟩
  rcases Server.run_view sound.server i with ⟨v,inFlight,ran,_,running⟩ | ⟨later,_⟩
  · obtain ⟨⟨chunks,failures,results,_,whole,failed,_⟩,replies,lost⟩ := sound.carries i c found
    have phase := (run_tracks ran).phase
    rw [running alive] at phase
    rw [inFlight]
    generalize flight : v.outstanding = outstanding at phase
    generalize results' : reads (Server.inputsOf i inputs) = all at phase
    generalize written' : writes (Server.inputsOf i inputs) = written at phase
    cases phase with
    | writing _ _ _ => exact .inl rfl
    | ended _ _ _ =>
      have down := lost (by rw [written']; simp)
      rw [up] at down
      cases down
    | reading inRange allWritten sameLength =>
      refine .inr ⟨rfl,?_⟩
      by_contra! nothing
      obtain ⟨transit,unwritten,silent⟩ := nothing
      have silent := silent unwritten
      have intact : failures = 0 := by
        by_contra some
        rw [(failed (Nat.pos_of_ne_zero some)).1] at up
        cases up
      -- The whole line was read, in one chunk at least, and that chunk was answered.
      have read := whole intact
      rw [transit,unwritten,List.append_nil,List.append_nil] at read
      have count : (answers authorized_clients (Server.inputsOf i inputs)).length =
          (writes (Server.inputsOf i inputs)).count true := by
        rw [answers_length (by rw [results']; exact inRange),results',written',counted_written allWritten,sameLength]
      rw [waits,silent,← count,List.take_length] at replies
      have none : answers authorized_clients (Server.inputsOf i inputs) = [] := by
        cases first : answers authorized_clients (Server.inputsOf i inputs) with
        | nil => rfl
        | cons reply more =>
          obtain ⟨byte,wire⟩ := wire_singleton reply
          simp [first,wire] at replies
      have noReads := @answers_length authorized_clients _ (by rw [results']; exact inRange)
      rw [none,results'] at noReads
      have noChunks : chunks = [] := by
        have empty : all = [] := List.length_eq_zero_iff.mp noReads.symm
        rw [results',empty] at results
        simpa using (List.append_eq_nil_iff.mp results.symm).1
      exact line (by rw [← read,noChunks]; rfl)
  · omega

/-- Until the exchange is over there is a move that takes it further. -/
theorem exchange_enabled {authorized_clients : Clients} {n : State} {i : Nat}
    (exchanging : Exchanging authorized_clients i n) (open' : ¬ Settled i n) :
    ∃ move, move.serves i = true ∧ (step n move).isSome := by
  obtain ⟨c,found,_⟩ := exchanging.line
  obtain ⟨alive,up,waits,writing | ⟨reading,transit | unwritten | ⟨wrote,arrived⟩⟩⟩ := exchange_cases exchanging found open'
  · obtain ⟨server,stepped⟩ := @complete_enabled _ _ _ (.write true) alive writing (by simp [Completion.op])
    exact ⟨.write_completes i true,by simp [Move.serves],by simp [step,guard,found,stepped]⟩
  · have cut : 1 ≤ min max_length c.transit.length ∧ min max_length c.transit.length ≤ max_length ∧
        min max_length c.transit.length ≤ c.transit.length := by
      have some := List.length_pos_of_ne_nil transit
      have room : 1 ≤ max_length := by decide
      omega
    obtain ⟨server,stepped⟩ := @complete_enabled _ _ _
      (.read (.data (c.transit.take (min max_length c.transit.length))) ⟨.async,.returned⟩) alive reading (by simp [Completion.op])
    refine ⟨.deliver i (min max_length c.transit.length) ⟨.async,.returned⟩,by simp [Move.serves],?_⟩
    simp only [step,guard,found,stepped,Option.bind_eq_bind,Option.bind_some,if_pos cut]
    rfl
  · have some : 1 ≤ c.unwritten.length := List.length_pos_of_ne_nil unwritten
    refine ⟨.write_some i c.unwritten.length,by simp [Move.serves],?_⟩
    simp [step,guard,found,up,some]
  · obtain ⟨byte,rest,first⟩ := List.exists_cons_of_ne_nil arrived
    refine ⟨.read_reply i,by simp [Move.serves],?_⟩
    simp [step,guard,found,up,wrote,waits,first]

/-- The exchange on a connection: the moves that serve it use up what is left. -/
def exchange (authorized_clients : Clients) (i : Nat) : Ranking.Ranked step where
  Inv := Exchanging authorized_clients i
  Live n := ¬ Settled i n
  Done := Settled i
  counts move := move.serves i
  measure := left i
  keep _ _ _ exchanging one := exchanging_step exchanging one
  back _ _ _ _ one open' settled := open' (settled_step one settled)
  uses _ _ _ exchanging one open' := left_step exchanging one open'
  enabled _ exchanging open' := by
    obtain ⟨move,serves,possible⟩ := exchange_enabled exchanging open'
    obtain ⟨m,one⟩ := Option.isSome_iff_exists.mp possible
    exact ⟨move,m,serves,one⟩
  dead _ settled := not_not.mp settled

theorem left_le {authorized_clients : Clients} {n : State} {i : Nat} {c : Connection}
    (exchanging : Exchanging authorized_clients i n) (found : n.connections[i]? = some c) (open' : ¬ Settled i n) :
    left i n ≤ 3 * c.line.length + 1 := by
  obtain ⟨_,up,_⟩ := exchange_cases exchanging found open'
  obtain ⟨inputs,sound⟩ := exchanging.sound
  obtain ⟨⟨chunks,failures,_,_,whole,failed,_⟩,_,_⟩ := sound.carries i c found
  have intact : failures = 0 := by
    by_contra some
    rw [(failed (Nat.pos_of_ne_zero some)).1] at up
    cases up
  have bytes := congrArg List.length (whole intact)
  simp only [List.length_append] at bytes
  have indicator : (if n.server.sessions[i]? = some [.write] then 1 else 0) ≤ 1 := by split <;> omega
  simp only [left,found,Option.map_some,Option.getD_some]
  omega

/-- Whatever the others do: moves of its own exchange lead an accepted client that has
    a line to its reply, unless its connection is lost or the server faulted; and
    however other moves are put between, there are at most three of them for each byte
    of the line and one more. -/
theorem client_served {authorized_clients : Clients} {moves : List Move} {n : State} {i : Nat} {c : Connection}
    (ran : run step (start authorized_clients) moves = some n) (accepted : i < n.server.sessions.length)
    (found : n.connections[i]? = some c) (line : c.line ≠ []) :
    (∀ more m, run step n more = some m → ¬ Settled i m → more.countP (Move.serves i) ≤ 3 * c.line.length + 1) ∧
    ∀ more m, run step n more = some m →
      ∃ rest final, run step m rest = some final ∧ (∀ move ∈ rest, move.serves i = true) ∧ Settled i final := by
  have exchanging : Exchanging authorized_clients i n := ⟨run_sound ran,accepted,c,found,line⟩
  refine ⟨?_,?_⟩
  · intro more m goesOn open'
    have used : more.countP (Move.serves i) + left i m ≤ left i n :=
      (exchange authorized_clients i).run_uses exchanging goesOn open'
    have bound := left_le exchanging found ((exchange authorized_clients i).run_back exchanging goesOn open')
    omega
  · intro more m goesOn
    exact (exchange authorized_clients i).reaches_done ((exchange authorized_clients i).run_inv exchanging goesOn)

theorem client_served_report : ∃ n rest final, run step (start testClients) [.connect testReport,.accept true] = some n ∧
    run step n rest = some final ∧ (∀ move ∈ rest, move.serves 0 = true) ∧ Settled 0 final := by
  obtain ⟨rest,final,served⟩ :=
    (@client_served testClients [.connect testReport,.accept true] _ 0 _ rfl (by decide) rfl (by decide)).2 [] _ rfl
  exact ⟨_,rest,final,rfl,served⟩

end SysInfo.Network
