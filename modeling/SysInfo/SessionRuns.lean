import SysInfo.Session

/-!
# Runs of a session

Which operation is outstanding after which completions, what the log holds then,
and the sequential request/reply loop that the callbacks amount to.
-/

namespace SysInfo.SessionRuns
open SysInfo.Text SysInfo.Utils SysInfo.Transition SysInfo.Session

/-- The read completions among the inputs, in order. -/
def reads (inputs : List Completion) : List (ReadResult × Task) :=
  inputs.filterMap fun
    | .read result task => some (result,task)
    | .write _ => none

def writes (inputs : List Completion) : List Bool :=
  inputs.filterMap fun
    | .read _ _ => none
    | .write ok => some ok

@[simp] theorem reads_read (inputs : List Completion) (result : ReadResult) (task : Task) :
    reads (inputs ++ [.read result task]) = reads inputs ++ [(result,task)] := by simp [reads]
@[simp] theorem reads_write (inputs : List Completion) (ok : Bool) : reads (inputs ++ [.write ok]) = reads inputs := by
  simp [reads]
@[simp] theorem writes_read (inputs : List Completion) (result : ReadResult) (task : Task) :
    writes (inputs ++ [.read result task]) = writes inputs := by simp [writes]
@[simp] theorem writes_write (inputs : List Completion) (ok : Bool) :
    writes (inputs ++ [.write ok]) = writes inputs ++ [ok] := by simp [writes]

/-- The sequential loop: read, respond, and go on when the reply was written. It
    waits where the next result is missing and breaks off where the parser does. -/
def loop (authorized_clients : Clients) : List (ReadResult × Task) → List Bool → List Event
  | [], _ => [.do_read]
  | (result,task) :: results, written =>
    match respond authorized_clients result task with
    | none => [.do_read]
    | some events => .do_read :: events ++
        match written with
        | true :: written => loop authorized_clients results written
        | _ => []

def AllInRange (results : List (ReadResult × Task)) : Prop := ∀ read ∈ results, InRange read.1
def AllWritten (written : List Bool) : Prop := ∀ ok ∈ written, ok = true

/-- The operation outstanding after some read and write results, and whether the
    parser read out of range. -/
inductive Phase (authorized_clients : Clients) : List (ReadResult × Task) → List Bool → List Op → Bool → Prop where
  | reading {results written} : AllInRange results → AllWritten written → results.length = written.length →
      Phase authorized_clients results written [.read] false
  | writing {results written} : AllInRange results → AllWritten written → results.length = written.length + 1 →
      Phase authorized_clients results written [.write] false
  | ended {results written} : AllInRange results → AllWritten written → results.length = written.length + 1 →
      Phase authorized_clients results (written ++ [false]) [] false
  | faulted {results written result task} : AllInRange results → AllWritten written → results.length = written.length →
      ¬ InRange result → Phase authorized_clients (results ++ [(result,task)]) written [] true

private theorem allInRange_snoc {results : List (ReadResult × Task)} {result : ReadResult} {task : Task}
    (before : AllInRange results) (last : InRange result) : AllInRange (results ++ [(result,task)]) := by
  intro read member
  rcases List.mem_append.mp member with earlier | new
  · exact before read earlier
  · cases List.mem_singleton.mp new
    exact last

private theorem allWritten_snoc {written : List Bool} (before : AllWritten written) : AllWritten (written ++ [true]) := by
  intro ok member
  rcases List.mem_append.mp member with earlier | new
  · exact before ok earlier
  · exact List.mem_singleton.mp new

theorem loop_read {authorized_clients : Clients} (result : ReadResult) (task : Task) :
    ∀ {results : List (ReadResult × Task)} {written : List Bool}, AllInRange results → AllWritten written →
      results.length = written.length →
      loop authorized_clients (results ++ [(result,task)]) written =
        loop authorized_clients results written ++ (respond authorized_clients result task).getD [] := by
  intro results
  induction results with
  | nil =>
    intro written _ _ _
    cases written with
    | cons _ _ => contradiction
    | nil => cases responds : respond authorized_clients result task <;> simp [loop,responds]
  | cons read results ih =>
    intro written inRange allWritten sameLength
    cases written with
    | nil => contradiction
    | cons ok written =>
      cases allWritten ok (by simp)
      obtain ⟨events,responds⟩ := respond_of_inRange authorized_clients (inRange read (by simp)) read.2
      have tail := @ih written (fun r m => inRange r (by simp [m])) (fun o m => allWritten o (by simp [m]))
        (by simpa using sameLength)
      simp [loop,responds,tail]

theorem loop_write {authorized_clients : Clients} (ok : Bool) :
    ∀ {results : List (ReadResult × Task)} {written : List Bool}, AllInRange results → AllWritten written →
      results.length = written.length + 1 →
      loop authorized_clients results (written ++ [ok]) = loop authorized_clients results written ++ on_write ok := by
  intro results
  induction results with
  | nil => intro written _ _ sameLength; simp at sameLength
  | cons read results ih =>
    intro written inRange allWritten sameLength
    obtain ⟨events,responds⟩ := respond_of_inRange authorized_clients (inRange read (by simp)) read.2
    cases written with
    | nil =>
      have last : results = [] := by simpa using sameLength
      cases ok <;> simp [loop,responds,last,on_write]
    | cons first written =>
      cases allWritten first (by simp)
      have tail := @ih written (fun r m => inRange r (by simp [m])) (fun o m => allWritten o (by simp [m]))
        (by simpa using sameLength)
      simp [loop,responds,tail]

/-- What is known of a session after some inputs. -/
structure Tracks (authorized_clients : Clients) (inputs : List Completion) (s : State) : Prop where
  clients : s.authorized_clients = authorized_clients
  log : s.log = loop authorized_clients (reads inputs) (writes inputs)
  phase : Phase authorized_clients (reads inputs) (writes inputs) s.outstanding s.fault

theorem phase_reading {authorized_clients : Clients} {results : List (ReadResult × Task)} {written : List Bool}
    {outstanding : List Op} (phase : Phase authorized_clients results written outstanding false)
    (inFlight : .read ∈ outstanding) :
    outstanding = [.read] ∧ AllInRange results ∧ AllWritten written ∧ results.length = written.length := by
  cases phase with
  | reading inRange allWritten sameLength => exact ⟨rfl,inRange,allWritten,sameLength⟩
  | writing _ _ _ => simp at inFlight
  | ended _ _ _ => simp at inFlight

theorem phase_writing {authorized_clients : Clients} {results : List (ReadResult × Task)} {written : List Bool}
    {outstanding : List Op} (phase : Phase authorized_clients results written outstanding false)
    (inFlight : .write ∈ outstanding) :
    outstanding = [.write] ∧ AllInRange results ∧ AllWritten written ∧ results.length = written.length + 1 := by
  cases phase with
  | reading _ _ _ => simp at inFlight
  | writing inRange allWritten sameLength => exact ⟨rfl,inRange,allWritten,sameLength⟩
  | ended _ _ _ => simp at inFlight

/-- After as many writes as reads, none of them failed, the session reads. -/
theorem phase_of_even {authorized_clients : Clients} {results : List (ReadResult × Task)} {written : List Bool}
    {outstanding : List Op} (phase : Phase authorized_clients results written outstanding false)
    (even : results.length = written.length) (all : AllWritten written) : outstanding = [.read] := by
  cases phase with
  | reading _ _ _ => rfl
  | writing _ _ odd => omega
  | ended _ _ _ => exact absurd (all false (by simp)) (by decide)

theorem tracks_step {authorized_clients : Clients} {inputs : List Completion} {s t : State} {completion : Completion}
    (tracks : Tracks authorized_clients inputs s) (one : step s completion = some t) :
    Tracks authorized_clients (inputs ++ [completion]) t := by
  obtain ⟨alive,cases⟩ := step_cases one
  have phase := tracks.phase
  rw [alive] at phase
  rcases cases with ⟨result,task,events,rfl,inFlight,responds,rfl⟩ | ⟨result,task,rfl,inFlight,responds,rfl⟩ |
    ⟨ok,rfl,inFlight,rfl⟩
  · rw [tracks.clients] at responds
    obtain ⟨only,inRange,written,sameLength⟩ := phase_reading phase inFlight
    refine ⟨tracks.clients,?_,?_⟩
    · simp [tracks.log,loop_read result task inRange written sameLength,responds]
    · simpa [only] using Phase.writing (@allInRange_snoc _ _ task inRange (inRange_of_respond responds)) written
        (by simpa using sameLength)
  · rw [tracks.clients] at responds
    obtain ⟨only,inRange,written,sameLength⟩ := phase_reading phase inFlight
    have outside : ¬ InRange result := by
      intro inside
      obtain ⟨events,some⟩ := respond_of_inRange authorized_clients inside task
      rw [responds] at some
      cases some
    refine ⟨tracks.clients,?_,?_⟩
    · simp [tracks.log,loop_read result task inRange written sameLength,responds]
    · simpa [only] using @Phase.faulted _ _ _ _ task inRange written sameLength outside
  · obtain ⟨only,inRange,written,sameLength⟩ := phase_writing phase inFlight
    refine ⟨tracks.clients,?_,?_⟩
    · simp [tracks.log,loop_write ok inRange written sameLength]
    · cases ok with
      | true => simpa [only] using Phase.reading inRange (allWritten_snoc written) (by simpa using sameLength)
      | false => simpa [only] using Phase.ended inRange written sameLength

theorem run_tracks {authorized_clients : Clients} {inputs : List Completion} {s : State}
    (ran : run step (start authorized_clients) inputs = some s) : Tracks authorized_clients inputs s := by
  refine run_induction (Tracks authorized_clients) ⟨rfl,rfl,?_⟩ (fun _ _ _ _ _ tracks one => tracks_step tracks one) ran
  exact Phase.reading (by simp [reads,AllInRange]) (by simp [writes,AllWritten]) rfl

/-- What a session adds to its log on a parsed chunk. -/
theorem log_of_read {authorized_clients : Clients} {inputs : List Completion} {s t : State} {chunk : Bytes} {task : Task}
    {c_detail : ClientDetail} (ran : run step (start authorized_clients) inputs = some s)
    (parsed : parse_to_client_detail chunk = some c_detail) (one : step s (.read (.data chunk) task) = some t) :
    t.log = s.log ++ respondTo authorized_clients c_detail task := by
  have responds : respond s.authorized_clients (.data chunk) task = some (respondTo authorized_clients c_detail task) := by
    simp [respond,parsed,(run_tracks ran).clients]
  rcases (step_cases one).2 with ⟨_,_,events,same,_,responds',rfl⟩ | ⟨_,_,same,_,responds',_⟩ | ⟨_,same,_⟩
  · cases same
    rw [responds] at responds'
    cases responds'
    rfl
  · cases same
    rw [responds] at responds'
    cases responds'
  · cases same

theorem phase_atMostOne {authorized_clients : Clients} {results : List (ReadResult × Task)} {written : List Bool}
    {outstanding : List Op} {fault : Bool} (phase : Phase authorized_clients results written outstanding fault) :
    outstanding.length ≤ 1 := by
  cases phase <;> simp

theorem phase_fault {authorized_clients : Clients} {results : List (ReadResult × Task)} {written : List Bool}
    {outstanding : List Op} {fault : Bool} (phase : Phase authorized_clients results written outstanding fault) :
    fault = false ↔ AllInRange results := by
  cases phase with
  | reading inRange _ _ => exact ⟨fun _ => inRange,fun _ => rfl⟩
  | writing inRange _ _ => exact ⟨fun _ => inRange,fun _ => rfl⟩
  | ended inRange _ _ => exact ⟨fun _ => inRange,fun _ => rfl⟩
  | @faulted results written result task _ _ _ outside =>
    refine ⟨fun impossible => Bool.noConfusion impossible,fun inRange => ?_⟩
    exact absurd (inRange (result,task) (by simp)) outside

/-- A failed write is the last completion of a session. -/
theorem phase_after_failure {authorized_clients : Clients} {results : List (ReadResult × Task)} {written : List Bool}
    {outstanding : List Op} {fault : Bool} (phase : Phase authorized_clients results written outstanding fault)
    {before after : List Bool} (split : written = before ++ false :: after) : after = [] ∧ outstanding = [] := by
  cases phase with
  | reading _ written _ => exact absurd (written false (by simp [split])) (by decide)
  | writing _ written _ => exact absurd (written false (by simp [split])) (by decide)
  | @ended results written _ written' _ =>
    rcases snoc_split split with ⟨none,_,_⟩ | ⟨rest,_,earlier⟩
    · exact ⟨none,rfl⟩
    · exact absurd (written' false (by simp [earlier])) (by decide)
  | faulted _ written _ _ => exact absurd (written false (by simp [split])) (by decide)

/-! ## What the log shows -/

/-- Reading one kind of event off the log gives what the handlers of the read
    completions contributed, in order. -/
theorem log_projection {Shown : Type} (shows : Event → Option Shown) (silent : shows .do_read = none)
    {authorized_clients : Clients} {inputs : List Completion} {s : State}
    (ran : run step (start authorized_clients) inputs = some s) :
    s.log.filterMap shows = (reads inputs).flatMap fun read =>
      ((respond authorized_clients read.1 read.2).getD []).filterMap shows := by
  refine run_induction (fun inputs s => s.log.filterMap shows = (reads inputs).flatMap fun read =>
    ((respond authorized_clients read.1 read.2).getD []).filterMap shows) ?_ ?_ ran
  · simp [start,reads,silent]
  · intro inputs m completion t before shown one
    have clients := (run_tracks before).clients
    obtain ⟨_,cases⟩ := step_cases one
    rcases cases with ⟨result,task,events,rfl,_,responds,rfl⟩ | ⟨result,task,rfl,_,responds,rfl⟩ | ⟨ok,rfl,_,rfl⟩
    · rw [clients] at responds
      simp [shown,responds]
    · rw [clients] at responds
      simp [shown,responds]
    · cases ok <;> simp [shown,on_write,silent]

def Event.reply : Event → Option Reply
  | .do_write reply => some reply
  | _ => none
def Event.detail : Event → Option ClientDetail
  | .write_to_db c_detail => some c_detail
  | _ => none
def Event.statement : Event → Option Bytes
  | .execute insert_SQL _ => some insert_SQL
  | _ => none
def Event.executed : Event → Option (Bytes × Execution)
  | .execute insert_SQL execution => some (insert_SQL,execution)
  | _ => none

/-- The reply that a read completion calls for. -/
def answer (authorized_clients : Clients) : ReadResult → Option Reply
  | .error => some .READ_FAILURE
  | .data chunk => (parse_to_client_detail chunk).map fun c_detail =>
    if c_detail.client_key ∈ authorized_clients then .READ_SUCCESS else .NOT_AUTHORIZED

/-- The detail that a read completion has inserted. -/
def stored (authorized_clients : Clients) : ReadResult → Option ClientDetail
  | .error => none
  | .data chunk => (parse_to_client_detail chunk).bind fun c_detail =>
    if c_detail.client_key ∈ authorized_clients then some c_detail else none

/-- What a read completion has inserted is the report of its chunk, under a key of the
    map. -/
theorem stored_data {authorized_clients : Clients} {result : ReadResult} {c_detail : ClientDetail}
    (kept : stored authorized_clients result = some c_detail) :
    ∃ chunk, result = .data chunk ∧ parse_to_client_detail chunk = some c_detail ∧ c_detail.client_key ∈ authorized_clients := by
  cases result with
  | error => cases kept
  | data chunk =>
    obtain ⟨parsed,found,kept⟩ := Option.bind_eq_some_iff.mp kept
    split at kept
    · rename_i authorized
      cases kept
      exact ⟨chunk,rfl,found,authorized⟩
    · cases kept

/-- What a report contributes of one kind of event. -/
theorem respondTo_shows {Shown : Type} (shows : Event → Option Shown) (authorized_clients : Clients)
    (c_detail : ClientDetail) (task : Task) (mail : shows .send_email = none) :
    (respondTo authorized_clients c_detail task).filterMap shows =
      if c_detail.client_key ∈ authorized_clients then
        (shows (.write_to_db c_detail)).toList ++
          (write_to_db (generate_insert_str_for c_detail) task).filterMap shows ++
          (shows (.do_write .READ_SUCCESS)).toList
      else (shows (.do_write .NOT_AUTHORIZED)).toList := by
  have one : ∀ event, [event].filterMap shows = (shows event).toList := by
    intro event
    cases shown : shows event <;> simp [shown]
  unfold respondTo
  cases found : authorized_clients.lookup c_detail.client_key with
  | none =>
    rw [if_neg (Finmap.lookup_eq_none.mp found)]
    exact one _
  | some c_config =>
    rw [if_pos (Finmap.mem_of_lookup_eq_some found),← one,← one,← List.filterMap_append,← List.filterMap_append]
    cases crossed : limitCrossed c_config c_detail <;> simp [List.filterMap_cons,List.filterMap_append,crossed,mail]

theorem respond_reply (authorized_clients : Clients) (result : ReadResult) (task : Task) :
    ((respond authorized_clients result task).getD []).filterMap Event.reply = (answer authorized_clients result).toList := by
  cases result with
  | error => rfl
  | data chunk =>
    cases parsed : parse_to_client_detail chunk with
    | none => simp [respond,answer,parsed]
    | some c_detail =>
      have shown := respondTo_shows Event.reply authorized_clients c_detail task rfl
      rw [write_to_db_shows (fun _ _ => rfl)] at shown
      by_cases member : c_detail.client_key ∈ authorized_clients <;>
        simp [respond,answer,parsed,shown,member,Event.reply]

theorem respond_detail (authorized_clients : Clients) (result : ReadResult) (task : Task) :
    ((respond authorized_clients result task).getD []).filterMap Event.detail = (stored authorized_clients result).toList := by
  cases result with
  | error => rfl
  | data chunk =>
    cases parsed : parse_to_client_detail chunk with
    | none => simp [respond,stored,parsed]
    | some c_detail =>
      have shown := respondTo_shows Event.detail authorized_clients c_detail task rfl
      rw [write_to_db_shows (fun _ _ => rfl)] at shown
      by_cases member : c_detail.client_key ∈ authorized_clients <;>
        simp [respond,stored,parsed,shown,member,Event.detail]

theorem respond_statement (authorized_clients : Clients) (result : ReadResult) (task : Task) :
    ((respond authorized_clients result task).getD []).filterMap Event.statement =
      if task.launch = .async then ((stored authorized_clients result).map generate_insert_str_for).toList else [] := by
  cases result with
  | error => simp [respond,stored,Event.statement]
  | data chunk =>
    cases parsed : parse_to_client_detail chunk with
    | none => simp [respond,stored,parsed]
    | some c_detail =>
      have shown := respondTo_shows Event.statement authorized_clients c_detail task rfl
      by_cases member : c_detail.client_key ∈ authorized_clients <;> cases launch : task.launch <;>
        simp [respond,stored,parsed,shown,member,write_to_db,launch,Event.statement]

theorem respond_executed (authorized_clients : Clients) (result : ReadResult) (task : Task) :
    ((respond authorized_clients result task).getD []).filterMap Event.executed =
      if task.launch = .async then
        ((stored authorized_clients result).map fun c_detail => (generate_insert_str_for c_detail,task.execution)).toList
      else [] := by
  cases result with
  | error => simp [respond,stored,Event.executed]
  | data chunk =>
    cases parsed : parse_to_client_detail chunk with
    | none => simp [respond,stored,parsed]
    | some c_detail =>
      have shown := respondTo_shows Event.executed authorized_clients c_detail task rfl
      by_cases member : c_detail.client_key ∈ authorized_clients <;> cases launch : task.launch <;>
        simp [respond,stored,parsed,shown,member,write_to_db,launch,Event.executed]

/-- One reply for each answered read completion, in order. -/
theorem replies_eq {authorized_clients : Clients} {inputs : List Completion} {s : State}
    (ran : run step (start authorized_clients) inputs = some s) :
    s.log.filterMap Event.reply = (reads inputs).filterMap fun read => answer authorized_clients read.1 := by
  rw [log_projection Event.reply rfl ran,List.filterMap_eq_flatMap_toList]
  simp only [respond_reply]

theorem details_eq {authorized_clients : Clients} {inputs : List Completion} {s : State}
    (ran : run step (start authorized_clients) inputs = some s) :
    s.log.filterMap Event.detail = (reads inputs).filterMap fun read => stored authorized_clients read.1 := by
  rw [log_projection Event.detail rfl ran,List.filterMap_eq_flatMap_toList]
  simp only [respond_detail]

/-! ## Reads out of range -/

private theorem inRange_data_iff (chunk : Bytes) : InRange (.data chunk) ↔ 4 ≤ chunk.count separator :=
  parse_isSome_iff chunk

private theorem allInRange_iff (results : List (ReadResult × Task)) :
    AllInRange results ↔ ∀ chunk task, (.data chunk,task) ∈ results → 4 ≤ chunk.count separator := by
  constructor
  · intro inRange chunk task member
    exact (inRange_data_iff chunk).mp (inRange _ member)
  · intro counts read member
    obtain ⟨result,task⟩ := read
    cases result with
    | error => trivial
    | data chunk => exact (inRange_data_iff chunk).mpr (counts chunk task member)

/-- A session never reads out of range exactly as long as every chunk it is given
    holds four separators, and in each state it reaches the next chunk decides. -/
theorem reads_in_range_iff {authorized_clients : Clients} {inputs : List Completion} {s : State}
    (ran : run step (start authorized_clients) inputs = some s) :
    (s.fault = false ↔ ∀ chunk task, (.data chunk,task) ∈ reads inputs → 4 ≤ chunk.count separator) ∧
      ∀ chunk task t, step s (.read (.data chunk) task) = some t → (t.fault = false ↔ 4 ≤ chunk.count separator) := by
  refine ⟨(phase_fault (run_tracks ran).phase).trans (allInRange_iff _),?_⟩
  intro chunk task t one
  have before := (phase_fault (run_tracks ran).phase).mp (step_cases one).1
  have after := phase_fault (run_tracks (run_snoc_some.mpr ⟨s,ran,one⟩)).phase
  rw [reads_read] at after
  constructor
  · intro alive
    exact (inRange_data_iff chunk).mp (after.mp alive (.data chunk,task) (by simp))
  · intro counts
    exact after.mpr (allInRange_snoc before ((inRange_data_iff chunk).mpr counts))

/-- The report of the parser's own test, then a bare newline: the second chunk
    faults. -/
theorem reads_in_range_report : ∃ s, run step (start testClients)
    [.read (.data (lit "xxx|16|88|25|Sat Nov 26 18:31:34 2016")) ⟨.async,.returned⟩,.write true] = some s ∧
    s.fault = false ∧ ∀ t, step s (.read (.data [newline]) ⟨.async,.returned⟩) = some t → ¬ t.fault = false := by
  refine ⟨_,rfl,by decide,?_⟩
  intro t one
  have ran : run step (start testClients) [.read (.data (lit "xxx|16|88|25|Sat Nov 26 18:31:34 2016"))
    ⟨.async,.returned⟩,.write true] = some _ := rfl
  rw [(reads_in_range_iff ran).2 _ _ _ one]
  decide

/-- One newline from any peer makes the parser read past its only field. -/
theorem newline_out_of_range : ¬ ∀ (inputs : List Completion) (s t : State) (chunk : Bytes) (task : Task),
    run step (start testClients) inputs = some s → 1 ≤ chunk.length → chunk.length ≤ max_length →
    step s (.read (.data chunk) task) = some t → t.fault = false := by
  intro always
  have := always [] (start testClients) ⟨testClients,[],[.do_read],true⟩ [newline] ⟨.async,.returned⟩
    rfl (by decide) (by decide) rfl
  cases this

/-! ## The sequential loop -/

/-- The completions that the loop takes of the results at hand. -/
def schedule : List (ReadResult × Task) → List Bool → List Completion
  | [], _ => []
  | (result,task) :: results, written => .read result task ::
      match written with
      | [] => []
      | false :: _ => [.write false]
      | true :: written => .write true :: schedule results written

private theorem step_read {authorized_clients : Clients} (log : List Event) {events : List Event} {result : ReadResult}
    {task : Task} (responds : respond authorized_clients result task = some events) :
    step ⟨authorized_clients,[.read],log,false⟩ (.read result task) =
      some ⟨authorized_clients,[.write],log ++ events,false⟩ := by
  simp [step,Completion.op,handler,on_read_eq,responds,respond_op responds]

private theorem step_write (authorized_clients : Clients) (log : List Event) (ok : Bool) :
    step ⟨authorized_clients,[.write],log,false⟩ (.write ok) =
      some ⟨authorized_clients,if ok then [.read] else [],log ++ on_write ok,false⟩ := by
  cases ok <;> simp [step,Completion.op,handler,on_write,Event.op]

/-- The callbacks can follow the loop on any results. -/
theorem run_schedule (authorized_clients : Clients) :
    ∀ (results : List (ReadResult × Task)) (written : List Bool) (log : List Event), AllInRange results →
      ∃ s, run step ⟨authorized_clients,[.read],log ++ [.do_read],false⟩ (schedule results written) = some s ∧
        s.log = log ++ loop authorized_clients results written := by
  intro results
  induction results with
  | nil => intro written log _; exact ⟨_,rfl,rfl⟩
  | cons read results ih =>
    obtain ⟨result,task⟩ := read
    intro written log inRange
    obtain ⟨events,responds⟩ := respond_of_inRange authorized_clients (inRange (result,task) (by simp)) task
    have first := step_read (log ++ [.do_read]) responds
    cases written with
    | nil =>
      refine ⟨_,run_cons_some.mpr ⟨_,first,rfl⟩,?_⟩
      simp [loop,responds]
    | cons ok written =>
      have second := step_write authorized_clients (log ++ [.do_read] ++ events) ok
      cases ok with
      | false =>
        refine ⟨_,run_cons_some.mpr ⟨_,first,run_cons_some.mpr ⟨_,second,rfl⟩⟩,?_⟩
        simp [loop,responds,on_write]
      | true =>
        obtain ⟨s,rest,logged⟩ := ih written (log ++ [.do_read] ++ events) fun r m => inRange r (by simp [m])
        refine ⟨s,run_cons_some.mpr ⟨_,first,run_cons_some.mpr ⟨_,second,rest⟩⟩,?_⟩
        simp [loop,responds,logged]

private theorem schedule_results : ∀ (results : List (ReadResult × Task)) (written : List Bool),
    reads (schedule results written) <+: results ∧ writes (schedule results written) <+: written := by
  intro results
  induction results with
  | nil => intro written; simp [schedule,reads,writes]
  | cons read results ih =>
    intro written
    cases written with
    | nil => simp [schedule,reads,writes]
    | cons ok written =>
      cases ok with
      | false => simp [schedule,reads,writes]
      | true => simpa [schedule,reads,writes] using ih written

theorem answered_all (authorized_clients : Clients) {results : List (ReadResult × Task)}
    (inRange : ∀ read ∈ results, InRange read.1) :
    (results.filterMap fun read => answer authorized_clients read.1).map some =
      results.map fun read => answer authorized_clients read.1 := by
  induction results with
  | nil => rfl
  | cons read results ih =>
    have answered : ∃ reply, answer authorized_clients read.1 = some reply := by
      have inside := inRange read (by simp)
      cases result : read.1 with
      | error => exact ⟨_,rfl⟩
      | data chunk =>
        rw [result] at inside
        obtain ⟨c_detail,parsed⟩ := Option.isSome_iff_exists.mp inside
        exact ⟨_,by simp [answer,parsed]; rfl⟩
    obtain ⟨reply,replied⟩ := answered
    simp [replied,ih fun r m => inRange r (by simp [m])]

/-- The callbacks of a session and the sequential loop do the same: on every run
    whose reads parse in range and whose tasks run, and on all results that the
    loop can be given. At most one operation is outstanding, every read completion
    gets its reply, the statements executed are those of the authorized chunks,
    and a failed write is the end. -/
theorem session_refines_loop (authorized_clients : Clients) :
    (∀ inputs s, run step (start authorized_clients) inputs = some s →
      (∀ read ∈ reads inputs, InRange read.1 ∧ read.2.launch = .async) →
      s.log = loop authorized_clients (reads inputs) (writes inputs) ∧
      s.outstanding.length ≤ 1 ∧
      (s.log.filterMap Event.reply).map some = (reads inputs).map (fun read => answer authorized_clients read.1) ∧
      s.log.filterMap Event.statement =
        (reads inputs).filterMap (fun read => (stored authorized_clients read.1).map generate_insert_str_for) ∧
      ∀ before after, writes inputs = before ++ false :: after → after = [] ∧ s.outstanding = []) ∧
    (∀ results written, (∀ read ∈ results, InRange read.1 ∧ read.2.launch = .async) →
      ∃ inputs s, run step (start authorized_clients) inputs = some s ∧ reads inputs <+: results ∧
        writes inputs <+: written ∧ s.log = loop authorized_clients results written) := by
  constructor
  · intro inputs s ran assumed
    have tracks := run_tracks ran
    refine ⟨tracks.log,phase_atMostOne tracks.phase,?_,?_,fun before after => phase_after_failure tracks.phase⟩
    · rw [replies_eq ran]
      exact answered_all authorized_clients fun read member => (assumed read member).1
    · rw [log_projection Event.statement rfl ran,List.filterMap_eq_flatMap_toList]
      apply List.flatMap_congr
      intro read member
      rw [respond_statement,if_pos (assumed read member).2]
  · intro results written assumed
    obtain ⟨s,ran,logged⟩ := run_schedule authorized_clients results written [] fun read member => (assumed read member).1
    exact ⟨_,s,ran,(schedule_results results written).1,(schedule_results results written).2,logged⟩

/-- A report, then the end of the stream. -/
def reportThenEnd : List Completion :=
  [.read (.data testReport) ⟨.async,.threw⟩,.write true,
    .read .error ⟨.async,.returned⟩,.write false]

theorem session_refines_loop_report : ∃ s, run step (start testClients) reportThenEnd = some s ∧
    (s.log.filterMap Event.reply).map some = [some .READ_SUCCESS,some .READ_FAILURE] ∧ s.outstanding = [] := by
  obtain ⟨s,ran⟩ : ∃ s, run step (start testClients) reportThenEnd = some s :=
    Option.isSome_iff_exists.mp (by decide +kernel)
  have assumed : ∀ read ∈ reads reportThenEnd, InRange read.1 ∧ read.2.launch = .async := by
    intro read member
    simp only [reads,reportThenEnd,List.filterMap_cons,List.filterMap_nil,List.mem_cons,List.not_mem_nil,or_false] at member
    rcases member with rfl | rfl
    · exact ⟨(parse_isSome_iff _).mpr (by decide +kernel),rfl⟩
    · exact ⟨trivial,rfl⟩
  obtain ⟨_,_,replies,_,final⟩ := (session_refines_loop testClients).1 reportThenEnd s ran assumed
  exact ⟨s,ran,replies.trans (by decide +kernel),(final [true] [] rfl).2⟩

end SysInfo.SessionRuns
