import SysInfo.SessionRuns

/-!
# The server: many sessions over one map

`do_accept` starts the next accept from its own handler, and every accepted
connection becomes a session with references to the one map and the one database
handle. One thread runs the handlers, so the server steps from one completion to
the next, in any order of the sessions.
-/

namespace SysInfo.Server
open SysInfo.Text SysInfo.Utils SysInfo.Transition SysInfo.Session SysInfo.SessionRuns

structure State where
  authorized_clients : Clients
  /-- The operations in flight of each session, in the order of acceptance. -/
  sessions : List (List Op)
  log : List (Nat × Event)
  fault : Bool

inductive Input where
  | accept (ok : Bool)
  | complete (session : Nat) (completion : Completion)

def start (authorized_clients : Clients) : State := ⟨authorized_clients,[],[],false⟩

def step (s : State) : Input → Option State
  | .accept ok =>
    if s.fault then none
    else if ok then
      some { s with sessions := s.sessions ++ [[.read]], log := s.log ++ [(s.sessions.length,.do_read)] }
    else some s
  | .complete session completion =>
    match s.sessions[session]? with
    | none => none
    | some outstanding =>
      (Session.step ⟨s.authorized_clients,outstanding,[],s.fault⟩ completion).map fun t =>
        ⟨t.authorized_clients,s.sessions.set session t.outstanding,s.log ++ t.log.map fun event => (session,event),t.fault⟩

/-- What one session did. -/
def logOf (session : Nat) (log : List (Nat × Event)) : List Event :=
  log.filterMap fun entry => if entry.1 = session then some entry.2 else none

/-- The completions of one session. -/
def inputsOf (session : Nat) (inputs : List Input) : List Completion :=
  inputs.filterMap fun
    | .complete i completion => if i = session then some completion else none
    | .accept _ => none

@[simp] theorem logOf_append (session : Nat) (first second : List (Nat × Event)) :
    logOf session (first ++ second) = logOf session first ++ logOf session second := by simp [logOf]
@[simp] theorem logOf_self (session : Nat) (events : List Event) :
    logOf session (events.map fun event => (session,event)) = events := by simp [logOf]

theorem logOf_other {session other : Nat} (different : other ≠ session) (events : List Event) :
    logOf session (events.map fun event => (other,event)) = [] := by
  simp [logOf,different]

@[simp] theorem inputsOf_accept (session : Nat) (inputs : List Input) (ok : Bool) :
    inputsOf session (inputs ++ [.accept ok]) = inputsOf session inputs := by simp [inputsOf]
@[simp] theorem inputsOf_self (session : Nat) (inputs : List Input) (completion : Completion) :
    inputsOf session (inputs ++ [.complete session completion]) = inputsOf session inputs ++ [completion] := by
  simp [inputsOf]

theorem inputsOf_other {session other : Nat} (different : other ≠ session) (inputs : List Input) (completion : Completion) :
    inputsOf session (inputs ++ [.complete other completion]) = inputsOf session inputs := by
  simp [inputsOf,different]

/-- Everything a step of the server can do. -/
theorem step_cases {s t : State} {input : Input} (one : step s input = some t) :
    (input = .accept true ∧ t = { s with sessions := s.sessions ++ [[.read]], log := s.log ++ [(s.sessions.length,.do_read)] }) ∨
    (input = .accept false ∧ t = s) ∨
    (∃ session completion outstanding u, input = .complete session completion ∧ s.sessions[session]? = some outstanding ∧
      Session.step ⟨s.authorized_clients,outstanding,[],s.fault⟩ completion = some u ∧
      t = ⟨u.authorized_clients,s.sessions.set session u.outstanding,s.log ++ u.log.map fun event => (session,event),u.fault⟩) := by
  cases input with
  | accept ok =>
    simp only [step] at one
    split at one
    · cases one
    · cases ok with
      | true => exact .inl ⟨rfl,by simpa using one.symm⟩
      | false => exact .inr (.inl ⟨rfl,by simpa using one.symm⟩)
  | complete session completion =>
    simp only [step] at one
    split at one
    · cases one
    · rename_i outstanding found
      obtain ⟨u,stepped,rfl⟩ := Option.map_eq_some_iff.mp one
      exact .inr (.inr ⟨session,completion,outstanding,u,rfl,found,stepped,rfl⟩)

/-! ## One session of many

What a session of the server does is a run of that session alone, on its own
completions. The map it shares is the one it started with. -/

/-- A session's step does not look at what it did before. -/
theorem step_log (s : Session.State) (completion : Completion) :
    Session.step s completion =
      (Session.step { s with log := [] } completion).map fun t => { t with log := s.log ++ t.log } := by
  unfold Session.step
  split
  · dsimp only
    cases handler s.authorized_clients completion <;> simp
  · rfl

/-- A session in the server after some inputs: one that was accepted, or one to
    come. -/
inductive View (authorized_clients : Clients) (session : Nat) (inputs : List Input) (s : State) : Prop where
  | accepted (v : Session.State) : s.sessions[session]? = some v.outstanding →
      run Session.step (Session.start authorized_clients) (inputsOf session inputs) = some v →
      v.log = logOf session s.log → (s.fault = false → v.fault = false) → View authorized_clients session inputs s
  | future : s.sessions.length ≤ session → inputsOf session inputs = [] → logOf session s.log = [] →
      View authorized_clients session inputs s

/-- A handler leaves the map alone, also when it faults. -/
theorem session_step_clients {s t : Session.State} {completion : Completion} (one : Session.step s completion = some t) :
    t.authorized_clients = s.authorized_clients := by
  rcases (Session.step_cases one).2 with ⟨_,_,_,_,_,_,rfl⟩ | ⟨_,_,_,_,_,rfl⟩ | ⟨_,_,_,rfl⟩ <;> rfl

theorem run_clients {authorized_clients : Clients} {inputs : List Input} {s : State}
    (ran : run step (start authorized_clients) inputs = some s) : s.authorized_clients = authorized_clients := by
  refine run_constant State.authorized_clients ?_ ran
  intro s input t one
  rcases step_cases one with ⟨_,rfl⟩ | ⟨_,rfl⟩ | ⟨_,_,_,_,_,_,stepped,rfl⟩
  · rfl
  · rfl
  · exact session_step_clients stepped

theorem view_step {authorized_clients : Clients} {session : Nat} {inputs : List Input} {s t : State} {input : Input}
    (clients : s.authorized_clients = authorized_clients) (view : View authorized_clients session inputs s)
    (one : step s input = some t) : View authorized_clients session (inputs ++ [input]) t := by
  rcases step_cases one with ⟨rfl,rfl⟩ | ⟨rfl,rfl⟩ | ⟨i,completion,outstanding,u,rfl,found,stepped,rfl⟩
  · -- The accepted connection is the next session.
    rcases view with ⟨v,inFlight,ran,logged,alive⟩ | ⟨later,none,silent⟩
    · have inside := (List.getElem?_eq_some_iff.mp inFlight).1
      refine .accepted v ?_ (by simpa using ran) ?_ alive
      · rw [List.getElem?_append_left inside,inFlight]
      · simp [logged,logOf,Nat.ne_of_gt inside]
    · by_cases next : s.sessions.length = session
      · refine .accepted (Session.start authorized_clients) ?_ (by simp [none]) ?_ fun _ => rfl
        · simp [← next,Session.start]
        · rw [logOf_append,silent]
          simp [logOf,next,Session.start]
      · refine .future (by simp; omega) (by simpa using none) ?_
        rw [logOf_append,silent]
        simp [logOf,next]
  · rcases view with ⟨v,inFlight,ran,logged,alive⟩ | ⟨later,none,silent⟩
    · exact .accepted v inFlight (by simpa using ran) logged alive
    · exact .future later (by simpa using none) silent
  · have handled := (List.getElem?_eq_some_iff.mp found).1
    by_cases own : i = session
    · subst own
      rcases view with ⟨v,inFlight,ran,logged,alive⟩ | ⟨later,_,_⟩
      · -- The session's own step, on the map and the operations it has alone.
        have same : v.authorized_clients = s.authorized_clients := (run_tracks ran).clients.trans clients.symm
        have running : s.fault = false := (Session.step_cases stepped).1
        have outstanding_eq : v.outstanding = outstanding := Option.some.inj (inFlight.symm.trans found)
        have alone : Session.step v completion = some { u with log := v.log ++ u.log } := by
          rw [step_log,same,alive running,outstanding_eq,← running,stepped]
          rfl
        refine .accepted { u with log := v.log ++ u.log } ?_ (by rw [inputsOf_self]; exact run_snoc_some.mpr ⟨v,ran,alone⟩) ?_ id
        · simp [List.getElem?_set_self handled]
        · simp [logged]
      · omega
    · rcases view with ⟨v,inFlight,ran,logged,alive⟩ | ⟨later,none,silent⟩
      · refine .accepted v ?_ (by rw [inputsOf_other own]; exact ran) ?_ fun _ => alive (Session.step_cases stepped).1
        · rw [List.getElem?_set_ne own,inFlight]
        · rw [logOf_append,logOf_other own,List.append_nil,logged]
      · refine .future (by simpa using later) (by rw [inputsOf_other own,none]) ?_
        rw [logOf_append,logOf_other own,List.append_nil,silent]

theorem run_view {authorized_clients : Clients} {inputs : List Input} {s : State}
    (ran : run step (start authorized_clients) inputs = some s) (session : Nat) : View authorized_clients session inputs s := by
  refine run_induction (View authorized_clients session) (.future (Nat.zero_le _) rfl rfl) ?_ ran
  intro inputs m input t before view one
  exact view_step (run_clients before) view one

/-- Reading one kind of event off a session's part of the log. -/
theorem logOf_projection {Shown : Type} (shows : Event → Option Shown) (silent : shows .do_read = none)
    {authorized_clients : Clients} {inputs : List Input} {s : State}
    (ran : run step (start authorized_clients) inputs = some s) (session : Nat) :
    (logOf session s.log).filterMap shows = (reads (inputsOf session inputs)).flatMap fun read =>
      ((respond authorized_clients read.1 read.2).getD []).filterMap shows := by
  rcases run_view ran session with ⟨v,_,alone,logged,_⟩ | ⟨_,none,nothing⟩
  · rw [← logged]
    exact SessionRuns.log_projection shows silent alone
  · rw [nothing,none]
    rfl

/-- The read completions of all sessions, in the order in which they are handled. -/
def handled (inputs : List Input) : List (ReadResult × Task) :=
  inputs.filterMap fun
    | .complete _ (.read result task) => some (result,task)
    | _ => none

/-- Reading one kind of event off the whole log. -/
theorem log_projection {Shown : Type} (shows : Event → Option Shown) (silent : shows .do_read = none)
    {authorized_clients : Clients} {inputs : List Input} {s : State}
    (ran : run step (start authorized_clients) inputs = some s) :
    s.log.filterMap (fun entry => shows entry.2) = (handled inputs).flatMap fun read =>
      ((respond authorized_clients read.1 read.2).getD []).filterMap shows := by
  refine run_induction (fun inputs s => s.log.filterMap (fun entry => shows entry.2) = (handled inputs).flatMap fun read =>
    ((respond authorized_clients read.1 read.2).getD []).filterMap shows) rfl ?_ ran
  intro inputs m input t before shown one
  have clients := run_clients before
  rcases step_cases one with ⟨rfl,rfl⟩ | ⟨rfl,rfl⟩ | ⟨session,completion,outstanding,u,rfl,_,stepped,rfl⟩
  · simp [handled,silent,shown]
  · simpa [handled] using shown
  · have tagged : (u.log.map fun event => (session,event)).filterMap (fun entry => shows entry.2) = u.log.filterMap shows := by
      rw [List.filterMap_map]
      rfl
    rw [List.filterMap_append,shown,tagged]
    rcases (Session.step_cases stepped).2 with ⟨result,task,events,rfl,_,responds,rfl⟩ | ⟨result,task,rfl,_,responds,rfl⟩ |
      ⟨ok,rfl,_,rfl⟩
    · rw [clients] at responds
      simp [handled,responds]
    · rw [clients] at responds
      simp [handled,responds]
    · cases ok <;> simp [handled,on_write,silent]

/-! ## Isolation -/

/-- What a session answers, submits and sends. -/
inductive Decision where
  | reply (data : Reply)
  | statement (insert_SQL : Bytes)
  | send_email
  deriving DecidableEq

def decision : Event → Option Decision
  | .do_write data => some (.reply data)
  | .write_to_db c_detail => some (.statement (generate_insert_str_for c_detail))
  | .send_email => some .send_email
  | .do_read => none
  | .execute _ _ => none

/-- What a report calls for does not depend on its task. -/
private theorem respond_decisions (authorized_clients : Clients) (result : ReadResult) (first second : Task) :
    ((respond authorized_clients result first).getD []).filterMap decision =
      ((respond authorized_clients result second).getD []).filterMap decision := by
  have silent := @write_to_db_shows _ decision (fun _ _ => rfl)
  cases result with
  | error => rfl
  | data chunk =>
    cases parsed : parse_to_client_detail chunk with
    | none => simp [respond,parsed]
    | some c_detail =>
      cases found : authorized_clients.lookup c_detail.client_key with
      | none => simp [respond,respondTo,parsed,found]
      | some c_config => simp [respond,respondTo,parsed,found,List.filterMap_cons,List.filterMap_append,silent]

/-- What a session decides in any run of the server is a function of the map at
    the start and of its own read results. -/
theorem decisions_eq {authorized_clients : Clients} {inputs : List Input} {s : State}
    (ran : run step (start authorized_clients) inputs = some s) (session : Nat) :
    (logOf session s.log).filterMap decision =
      ((reads (inputsOf session inputs)).map Prod.fst).flatMap fun result =>
        ((respond authorized_clients result ⟨.async,.returned⟩).getD []).filterMap decision := by
  rw [logOf_projection decision rfl ran,List.flatMap_map]
  apply List.flatMap_congr
  intro read _
  exact respond_decisions authorized_clients read.1 read.2 _

/-- A session that receives the same read results in two runs of the server
    replies the same, submits the same statements and sends the same mail, whatever
    the other sessions and the database do. The shared map stays what it was in
    both. -/
theorem sessions_do_not_interfere {authorized_clients : Clients} {inputs₁ inputs₂ : List Input} {s₁ s₂ : State}
    {session₁ session₂ : Nat} (ran₁ : run step (start authorized_clients) inputs₁ = some s₁)
    (ran₂ : run step (start authorized_clients) inputs₂ = some s₂)
    (sameReads : (reads (inputsOf session₁ inputs₁)).map Prod.fst = (reads (inputsOf session₂ inputs₂)).map Prod.fst) :
    (logOf session₁ s₁.log).filterMap decision = (logOf session₂ s₂.log).filterMap decision ∧
      s₁.authorized_clients = authorized_clients ∧ s₂.authorized_clients = authorized_clients := by
  refine ⟨?_,run_clients ran₁,run_clients ran₂⟩
  rw [decisions_eq ran₁,decisions_eq ran₂,sameReads]

/-- The report of one client alone, and after another session's two rejected
    chunks whose key the map must not learn. -/
def alone : List Input := [.accept true,.complete 0 (.read (.data testReport) ⟨.async,.returned⟩)]
def crowded : List Input :=
  [.accept true,.complete 0 (.read (.data (lit "mallory|1|2|3|t")) ⟨.async,.returned⟩),.accept true,.complete 0 (.write true),
    .complete 0 (.read (.data (lit "mallory|1|2|3|t")) ⟨.async,.returned⟩),
    .complete 1 (.read (.data testReport) ⟨.deferred,.threw⟩)]

theorem sessions_do_not_interfere_report : ∃ s₁ s₂,
    run step (start testClients) alone = some s₁ ∧ run step (start testClients) crowded = some s₂ ∧
    (logOf 0 s₁.log).filterMap decision = (logOf 1 s₂.log).filterMap decision ∧ s₂.authorized_clients = testClients := by
  obtain ⟨s₁,ran₁⟩ : ∃ s, run step (start testClients) alone = some s := Option.isSome_iff_exists.mp (by decide +kernel)
  obtain ⟨s₂,ran₂⟩ : ∃ s, run step (start testClients) crowded = some s := Option.isSome_iff_exists.mp (by decide +kernel)
  obtain ⟨same,_,kept⟩ := @sessions_do_not_interfere _ _ _ _ _ 0 1 ran₁ ran₂ rfl
  exact ⟨s₁,s₂,ran₁,ran₂,same,kept⟩

end SysInfo.Server
