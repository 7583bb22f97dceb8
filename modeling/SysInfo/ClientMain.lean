import SysInfo.Client
import SysInfo.Ranking
import SysInfo.UserInput
import SysInfo.Utils

/-!
# The client program

`main` of `client_main.cpp`: the task that `std::async` starts on a thread of its own
or puts off until `get`, the user who quits, the records in the log, and the code that
`main` returns.
-/

namespace SysInfo.ClientMain
open SysInfo.Text SysInfo.Utils SysInfo.Transition SysInfo.UserInput
open SysInfo.Session (Launch)

inductive Severity where
  | trace
  | debug
  | info
  | warning
  | error
  | fatal
  deriving DecidableEq

/-- A call of `log_message`. -/
structure Record where
  severity_level : Severity
  message : Bytes
  deriving DecidableEq

/-- What `percent(rng)` draws. -/
abbrev Percent := { n : Int // 1 ≤ n ∧ n ≤ 100 }

/-- The numbers that a tick draws, and the text that `asctime` makes of its time. -/
structure Sample where
  memory_percentage : Percent
  cpu_percentage : Percent
  no_of_processes : Percent
  str_time : Bytes
  plain : separator ∉ str_time

def line_to_be_written (client_key : Bytes) (sample : Sample) : Bytes :=
  generate_random_sys_info_data client_key sample.memory_percentage.val sample.cpu_percentage.val sample.no_of_processes.val
    sample.str_time

def testSample : Sample :=
  ⟨⟨44,by decide⟩,⟨89,by decide⟩,⟨11,by decide⟩,lit "Sat Nov 26 17:25:44 2016\n",by decide⟩

/-- The records of a tick: its line once it is connected, and what became of it. -/
def messages (line : Bytes) (tick : Client.Tick) : List Record :=
  (if tick.connected then [⟨.info,line⟩] else []) ++
    match Client.periodic_work tick with
    | some .failure => [⟨.error,lit "Failure : Sending data failed. Data : " ++ line⟩]
    | some .not_authorized => [⟨.fatal,lit "Failure : Not Authorized"⟩]
    | _ => []

/-- Where the main thread is: in `wait_till_user_quits`, in `get` with the flag set, or
    past the end of `main`. -/
inductive Main where
  | waiting
  | getting
  | returned (code : Nat)
  deriving DecidableEq

/-- Until the task begins, `client` is as `start_timer` will leave it, but for the
    flag. -/
structure State where
  client_key : Bytes
  input : Bytes
  launch : Launch
  main : Main
  begun : Bool
  client : Client.State
  log : List Record

/-- `main` up to the loop; `none` where it returns 1 for its arguments. -/
def main_start (argv : List Bytes) (input : Bytes) (launch : Launch) : Option State :=
  match argv with
  | [_,_,_,client_key] => some ⟨client_key,input,launch,.waiting,false,Client.start,[]⟩
  | _ => none

inductive Label where
  | begins
  | timer (label : RepeatTimer.Label)
  | periodic_work (sample : Sample) (tick : Client.Tick)
  | quits (fuel : Nat)
  | get_returns
  | get_throws (what : Bytes)

def step (s : State) : Label → Option State
  | .begins =>
    if s.begun = false ∧ (s.launch = .async ∨ s.main = .getting) then some { s with begun := true } else none
  | .timer label =>
    if s.begun = true ∧ label ≠ .set_stop then
      (Client.step s.client (.timer label)).map fun client => { s with client }
    else none
  | .periodic_work sample tick =>
    if s.begun = true then
      (Client.step s.client (.periodic_work tick)).map fun client =>
        { s with client, log := s.log ++ messages (line_to_be_written s.client_key sample) tick }
    else none
  | .quits fuel =>
    if s.main = .waiting ∧ (client_main.wait_till_user_quits fuel (.opened s.input)).isSome then
      (Client.step s.client (.timer .set_stop)).map fun client => { s with main := .getting, client }
    else none
  | .get_returns =>
    if s.main = .getting ∧ s.begun = true ∧ s.client.timer.phase = .returned then some { s with main := .returned 0 } else none
  | .get_throws what =>
    if s.main = .getting ∧ s.begun = true ∧ s.client.timer.phase = .threw then
      some { s with main := .returned 1, log := s.log ++ [⟨.error,what⟩] }
    else none

/-- What a step does, guards included. -/
inductive Steps (s : State) : Label → State → Prop where
  | begins : s.begun = false → s.launch = .async ∨ s.main = .getting → Steps s .begins { s with begun := true }
  | timer {label timer} : s.begun = true → label ≠ .set_stop → label ≠ .work_returns → label ≠ .work_throws →
      RepeatTimer.step s.client.timer label = some timer →
      Steps s (.timer label) { s with client := { s.client with timer } }
  | periodic_work {sample tick client} : s.begun = true → Client.step s.client (.periodic_work tick) = some client →
      Steps s (.periodic_work sample tick)
        { s with client, log := s.log ++ messages (line_to_be_written s.client_key sample) tick }
  | quits {fuel} : s.main = .waiting → quit ∈ lines s.input →
      Steps s (.quits fuel) { s with main := .getting, client := { s.client with timer := { s.client.timer with stop := true } } }
  | get_returns : s.main = .getting → s.begun = true → s.client.timer.phase = .returned →
      Steps s .get_returns { s with main := .returned 0 }
  | get_throws {what} : s.main = .getting → s.begun = true → s.client.timer.phase = .threw →
      Steps s (.get_throws what) { s with main := .returned 1, log := s.log ++ [⟨.error,what⟩] }

theorem steps_of_step {s t : State} {label : Label} (one : step s label = some t) : Steps s label t := by
  cases label with
  | begins =>
    simp only [step] at one
    split at one
    · rename_i guard
      cases one
      exact .begins guard.1 guard.2
    · cases one
  | timer label =>
    simp only [step] at one
    split at one
    · rename_i guard
      obtain ⟨client,stepped,rfl⟩ := Option.map_eq_some_iff.mp one
      simp only [Client.step] at stepped
      split at stepped
      · cases stepped
      · rename_i other
        obtain ⟨timer,ticked,rfl⟩ := Option.map_eq_some_iff.mp stepped
        exact .timer guard.1 guard.2 (fun same => other (.inl same)) (fun same => other (.inr same)) ticked
    · cases one
  | periodic_work sample tick =>
    simp only [step] at one
    split at one
    · rename_i begun
      obtain ⟨client,worked,rfl⟩ := Option.map_eq_some_iff.mp one
      exact .periodic_work begun worked
    · cases one
  | quits fuel =>
    simp only [step] at one
    split at one
    · rename_i guard
      have set : Client.step s.client (.timer .set_stop) =
          some { s.client with timer := { s.client.timer with stop := true } } := rfl
      rw [set] at one
      cases one
      refine .quits guard.1 ?_
      by_contra absent
      have never : client_main.wait_till_user_quits fuel (.opened s.input) = none := never_ends absent fuel
      rw [never] at guard
      cases guard.2
    · cases one
  | get_returns =>
    simp only [step] at one
    split at one
    · rename_i guard
      cases one
      exact .get_returns guard.1 guard.2.1 guard.2.2
    · cases one
  | get_throws what =>
    simp only [step] at one
    split at one
    · rename_i guard
      cases one
      exact .get_throws guard.1 guard.2.1 guard.2.2
    · cases one

/-! ## The task of the program

What the program does with its task is a run of the client alone. -/

/-- The steps of the client in a step of the program. -/
def Label.client : Label → List Client.Label
  | .timer label => [.timer label]
  | .periodic_work _ tick => [.periodic_work tick]
  | .quits _ => [.timer .set_stop]
  | _ => []

theorem client_step {s t : State} {label : Label} (one : step s label = some t) :
    run Client.step s.client label.client = some t.client := by
  cases steps_of_step one with
  | begins _ _ => rfl
  | timer _ _ returns throws ticked =>
    refine run_singleton_some.mpr ?_
    simp [Client.step,returns,throws,ticked]
  | periodic_work _ worked => exact run_singleton_some.mpr worked
  | quits _ _ => rfl
  | get_returns _ _ _ => rfl
  | get_throws _ _ _ => rfl

theorem run_client {s t : State} {labels : List Label} (ran : run step s labels = some t) :
    run Client.step s.client (labels.flatMap Label.client) = some t.client := by
  refine run_induction (fun labels t => run Client.step s.client (labels.flatMap Label.client) = some t.client) rfl ?_ ran
  intro labels m label t _ before one
  rw [List.flatMap_append,List.flatMap_singleton]
  exact run_append_some.mpr ⟨m.client,before,client_step one⟩

/-- The ticks of a client against its timer. -/
structure Ticked (s : Client.State) : Prop where
  /-- The work of the first wait is done before the flag is looked at. -/
  first : s.ticks = [] → s.timer.phase = .polling ∧ s.timer.armed = 1 ∨ s.timer.phase = .working
  threw : s.timer.phase = .threw → ∃ tick ∈ s.ticks, Client.periodic_work tick = none
  last : ∀ before tick after, s.ticks = before ++ tick :: after → Client.periodic_work tick = none →
    after = [] ∧ s.timer.phase = .threw

theorem ticked_start : Ticked Client.start := ⟨fun _ => .inl ⟨rfl,rfl⟩,nofun,by simp [Client.start]⟩

/-- One more tick: what it did to the timer is what became of its work. -/
theorem ticked_snoc {ticks : List Client.Tick} {tick : Client.Tick} {timer : RepeatTimer.State}
    (before : ∀ other ∈ ticks, Client.periodic_work other ≠ none)
    (outcome : timer.phase = .threw ↔ Client.periodic_work tick = none) : Ticked ⟨timer,ticks ++ [tick]⟩ := by
  refine ⟨by simp,fun threw => ⟨tick,by simp,outcome.mp threw⟩,?_⟩
  intro earlier other later split branch
  rcases snoc_split split with ⟨none,_,same⟩ | ⟨rest,_,split⟩
  · rw [same] at branch
    exact ⟨none,outcome.mpr branch⟩
  · exact absurd branch (before other (by simp [split]))

/-- No tick threw, and the timer goes on. -/
theorem ticked_alive {ticks : List Client.Tick} {timer : RepeatTimer.State}
    (first : ticks = [] → timer.phase = .polling ∧ timer.armed = 1 ∨ timer.phase = .working)
    (before : ∀ tick ∈ ticks, Client.periodic_work tick ≠ none) (alive : timer.phase ≠ .threw) : Ticked ⟨timer,ticks⟩ := by
  refine ⟨first,fun threw => absurd threw alive,?_⟩
  rintro earlier tick later rfl branch
  exact absurd branch (before tick (by simp))

theorem ticked_step {s t : Client.State} {label : Client.Label} (ticked : Ticked s) (one : Client.step s label = some t) :
    Ticked t := by
  obtain ⟨first,threw,last⟩ := ticked
  have before : s.timer.phase ≠ .threw → ∀ tick ∈ s.ticks, Client.periodic_work tick ≠ none := by
    intro alive tick member branch
    obtain ⟨earlier,later,split⟩ := List.append_of_mem member
    exact alive (last earlier tick later split branch).2
  have some : ¬ (s.timer.phase = .polling ∧ s.timer.armed = 1 ∨ s.timer.phase = .working) → s.ticks ≠ [] := mt first
  cases Client.steps_of_step one with
  | @timer label timer throws stepped =>
    cases RepeatTimer.steps_of_step stepped with
    | set_stop => exact ⟨first,threw,last⟩
    | work_throws _ => exact absurd rfl throws
    | work_returns _ => simp [Client.step] at one
    | expires polling _ => exact ticked_alive (fun _ => .inr rfl) (before (by simp [polling])) (by simp)
    | stops checking _ =>
      have done := some (by simp [checking])
      exact ticked_alive (fun none => absurd none done) (before (by simp [checking])) (by simp)
    | repeats checking _ =>
      have done := some (by simp [checking])
      exact ticked_alive (fun none => absurd none done) (before (by simp [checking])) (by simp)
    | async_wait rearming =>
      have done := some (by simp [rearming])
      exact ticked_alive (fun none => absurd none done) (before (by simp [rearming])) (by simp)
    | run_returns polling spent =>
      have done := some (by simp [polling,spent])
      exact ticked_alive (fun none => absurd none done) (before (by simp [polling])) (by simp)
  | threw working branch => exact ticked_snoc (before (by simp [working])) (iff_of_true rfl branch)
  | rejected working taken => exact ticked_snoc (before (by simp [working])) (by simp [taken])
  | returned working taken _ => exact ticked_snoc (before (by simp [working])) (by simp [taken])

theorem run_ticked {labels : List Client.Label} {s : Client.State} (ran : run Client.step Client.start labels = some s) :
    Ticked s :=
  run_invariant Ticked (fun _ _ _ ticked one => ticked_step ticked one) ran ticked_start

/-! ## The program and its task -/

structure Runs (s : State) : Prop where
  sound : RepeatTimer.Sound s.client.timer
  idle : s.begun = false → s.client.ticks = [] ∧ s.client.timer.armed = 1 ∧ s.client.timer.phase = .polling
  quit : s.main ≠ .waiting → s.client.timer.stop = true ∧ quit ∈ lines s.input
  ended : ∀ code, s.main = .returned code → s.begun = true ∧
    (code = 0 ∧ s.client.timer.phase = .returned ∨ code = 1 ∧ s.client.timer.phase = .threw)

/-- The ticks that can still begin, with the one under way, once the flag is set. -/
def pending (timer : RepeatTimer.State) : Nat :=
  timer.armed + if timer.phase = .working ∨ timer.phase = .rearming then 1 else 0

/-- A task that was put off begins with the flag set. -/
structure Deferred (s : State) : Prop where
  late : s.begun = true → s.main ≠ .waiting
  once : s.client.ticks.length + pending s.client.timer ≤ 1

theorem main_start_eq {argv : List Bytes} {input : Bytes} {launch : Launch} {s : State}
    (started : main_start argv input launch = some s) :
    ∃ client_key, s = ⟨client_key,input,launch,.waiting,false,Client.start,[]⟩ := by
  unfold main_start at started
  split at started
  · cases started
    exact ⟨_,rfl⟩
  · cases started

theorem runs_start {argv : List Bytes} {input : Bytes} {launch : Launch} {s : State}
    (started : main_start argv input launch = some s) : Runs s := by
  obtain ⟨client_key,rfl⟩ := main_start_eq started
  exact ⟨RepeatTimer.sound_start,fun _ => ⟨rfl,rfl,rfl⟩,fun other => absurd rfl other,nofun⟩

/-- Past `run()` the timer takes no step of its own. -/
theorem timer_ended {s t : RepeatTimer.State} {label : RepeatTimer.Label} (one : RepeatTimer.step s label = some t)
    (other : label ≠ .set_stop) : s.phase ≠ .returned ∧ s.phase ≠ .threw := by
  cases RepeatTimer.steps_of_step one with
  | set_stop => exact absurd rfl other
  | expires phase _ => simp [phase]
  | work_returns phase => simp [phase]
  | work_throws phase => simp [phase]
  | stops phase _ => simp [phase]
  | repeats phase _ => simp [phase]
  | async_wait phase => simp [phase]
  | run_returns phase _ => simp [phase]

/-- A tick is one of a timer at work, and leaves a flag set that was set. -/
theorem tick_cases {s t : Client.State} {tick : Client.Tick} (worked : Client.step s (.periodic_work tick) = some t) :
    s.timer.phase = .working ∧ t.ticks = s.ticks ++ [tick] ∧ t.timer.armed = s.timer.armed ∧
      (t.timer.phase = .threw ∨ t.timer.phase = .checking) ∧ (s.timer.stop = true → t.timer.stop = true) := by
  cases Client.steps_of_step worked with
  | threw working _ => exact ⟨working,rfl,rfl,.inl rfl,id⟩
  | rejected working _ => exact ⟨working,rfl,rfl,.inr rfl,fun _ => rfl⟩
  | returned working _ _ => exact ⟨working,rfl,rfl,.inr rfl,id⟩

/-- A program whose `main` returned takes no step. -/
theorem running_of_step {s t : State} {label : Label} (runs : Runs s) (one : step s label = some t) (code : Nat) :
    s.main ≠ .returned code := by
  intro returned
  obtain ⟨begun,final⟩ := runs.ended code returned
  cases steps_of_step one with
  | begins idle _ => rw [begun] at idle; cases idle
  | timer _ other _ _ ticked =>
    have alive := timer_ended ticked other
    rcases final with ⟨_,final⟩ | ⟨_,final⟩
    · exact alive.1 final
    · exact alive.2 final
  | periodic_work _ worked =>
    have working := (tick_cases worked).1
    rcases final with ⟨_,final⟩ | ⟨_,final⟩ <;> rw [working] at final <;> cases final
  | quits waiting _ => rw [returned] at waiting; cases waiting
  | get_returns getting _ _ => rw [returned] at getting; cases getting
  | get_throws getting _ _ => rw [returned] at getting; cases getting

theorem runs_step {s t : State} {label : Label} (runs : Runs s) (one : step s label = some t) : Runs t := by
  have running := running_of_step runs one
  have sound : RepeatTimer.Sound t.client.timer :=
    run_invariant (fun client => RepeatTimer.Sound client.timer) (fun _ _ _ sound one => Client.sound_step sound one)
      (client_step one) runs.sound
  obtain ⟨_,idle,quit,_⟩ := runs
  cases steps_of_step one with
  | begins _ _ => exact ⟨sound,nofun,quit,fun code returned => absurd returned (running code)⟩
  | timer begun _ _ _ ticked =>
    refine ⟨sound,?_,?_,fun code returned => absurd returned (running code)⟩
    · intro idle
      rw [begun] at idle
      cases idle
    · intro past
      exact ⟨(RepeatTimer.remaining_step (quit past).1 ticked).1,(quit past).2⟩
  | periodic_work begun worked =>
    refine ⟨sound,?_,?_,fun code returned => absurd returned (running code)⟩
    · intro idle
      rw [begun] at idle
      cases idle
    · intro past
      exact ⟨(tick_cases worked).2.2.2.2 (quit past).1,(quit past).2⟩
  | quits _ typed => exact ⟨sound,idle,fun _ => ⟨rfl,typed⟩,nofun⟩
  | get_returns getting begun returned =>
    refine ⟨sound,idle,fun _ => quit (by rw [getting]; nofun),?_⟩
    rintro code same
    cases same
    exact ⟨begun,.inl ⟨rfl,returned⟩⟩
  | get_throws getting begun threw =>
    refine ⟨sound,idle,fun _ => quit (by rw [getting]; nofun),?_⟩
    rintro code same
    cases same
    exact ⟨begun,.inr ⟨rfl,threw⟩⟩

theorem run_ticks {argv : List Bytes} {input : Bytes} {launch : Launch} {start s : State} {labels : List Label}
    (started : main_start argv input launch = some start) (ran : run step start labels = some s) :
    ∃ ticks, run Client.step Client.start ticks = some s.client := by
  obtain ⟨client_key,rfl⟩ := main_start_eq started
  exact ⟨_,run_client ran⟩

theorem run_runs {argv : List Bytes} {input : Bytes} {launch : Launch} {start s : State} {labels : List Label}
    (started : main_start argv input launch = some start) (ran : run step start labels = some s) : Runs s :=
  run_invariant Runs (fun _ _ _ runs one => runs_step runs one) ran (runs_start started)

/-- The flag is set by the user who quits or by a tick that was rejected. -/
theorem run_stop {argv : List Bytes} {input : Bytes} {launch : Launch} {start s : State} {labels : List Label}
    (started : main_start argv input launch = some start) (ran : run step start labels = some s) :
    s.client.timer.stop = true →
      s.main ≠ .waiting ∨ ∃ tick ∈ s.client.ticks, Client.periodic_work tick = some .not_authorized := by
  obtain ⟨client_key,rfl⟩ := main_start_eq started
  refine run_invariant (fun s => s.client.timer.stop = true →
    s.main ≠ .waiting ∨ ∃ tick ∈ s.client.ticks, Client.periodic_work tick = some .not_authorized) ?_ ran nofun
  intro s label t set one stop
  cases steps_of_step one with
  | begins _ _ => exact set stop
  | timer _ other _ _ ticked => exact set (RepeatTimer.stop_of_step ticked other stop)
  | @periodic_work sample tick client _ worked =>
    have kept : s.client.timer.stop = true →
        s.main ≠ .waiting ∨ ∃ other ∈ client.ticks, Client.periodic_work other = some .not_authorized := by
      intro before
      refine (set before).imp_right ?_
      rintro ⟨other,member,rejected⟩
      exact ⟨other,by simp [(tick_cases worked).2.1,member],rejected⟩
    cases Client.steps_of_step worked with
    | threw _ _ => exact kept stop
    | rejected _ taken => exact .inr ⟨tick,by simp,taken⟩
    | returned _ _ _ => exact kept stop
  | quits _ _ => exact .inl nofun
  | get_returns _ _ _ => exact .inl nofun
  | get_throws _ _ _ => exact .inl nofun

/-- With the flag set, every tick uses up one of those that are pending. -/
theorem pending_timer {s t : RepeatTimer.State} {label : RepeatTimer.Label} (stop : s.stop = true)
    (returns : label ≠ .work_returns) (throws : label ≠ .work_throws) (one : RepeatTimer.step s label = some t) :
    pending t ≤ pending s := by
  unfold pending
  cases RepeatTimer.steps_of_step one with
  | expires polling armed => simp [polling]; omega
  | work_returns _ => exact absurd rfl returns
  | work_throws _ => exact absurd rfl throws
  | stops checking _ => simp [checking]
  | repeats _ running => rw [stop] at running; cases running
  | async_wait rearming => simp [rearming]
  | run_returns polling _ => simp [polling]
  | set_stop => exact le_rfl

theorem pending_tick {s t : Client.State} {tick : Client.Tick} (worked : Client.step s (.periodic_work tick) = some t) :
    1 + pending t.timer = pending s.timer := by
  obtain ⟨working,_,armed,phase,_⟩ := tick_cases worked
  unfold pending
  rcases phase with phase | phase <;> simp [working,phase,armed] <;> omega

theorem given_step {s t : State} {label : Label} (one : step s label = some t) :
    t.launch = s.launch ∧ t.client_key = s.client_key ∧ t.input = s.input := by
  cases steps_of_step one <;> exact ⟨rfl,rfl,rfl⟩

theorem deferred_step {s t : State} {label : Label} (put_off : s.launch = .deferred) (runs : Runs s) (deferred : Deferred s)
    (one : step s label = some t) : Deferred t := by
  obtain ⟨late,once⟩ := deferred
  cases steps_of_step one with
  | begins _ may =>
    refine ⟨fun _ => ?_,once⟩
    rcases may with async | getting
    · rw [put_off] at async
      cases async
    · rw [getting]
      nofun
  | timer begun _ returns throws ticked =>
    refine ⟨late,?_⟩
    have less := pending_timer (runs.quit (late begun)).1 returns throws ticked
    dsimp only
    omega
  | periodic_work begun worked =>
    refine ⟨late,?_⟩
    have less := pending_tick worked
    have ticks := congrArg List.length (tick_cases worked).2.1
    rw [List.length_append,List.length_singleton] at ticks
    dsimp only
    omega
  | quits _ _ => exact ⟨fun _ => nofun,once⟩
  | get_returns _ _ _ => exact ⟨fun _ => nofun,once⟩
  | get_throws _ _ _ => exact ⟨fun _ => nofun,once⟩

theorem run_deferred {argv : List Bytes} {input : Bytes} {start s : State} {labels : List Label}
    (started : main_start argv input .deferred = some start) (ran : run step start labels = some s) : Deferred s := by
  have runs := runs_start started
  obtain ⟨client_key,rfl⟩ := main_start_eq started
  refine (run_invariant (fun s => s.launch = .deferred ∧ Runs s ∧ Deferred s) ?_ ran ⟨rfl,runs,nofun,le_rfl⟩).2.2
  rintro s label t ⟨late,runs,deferred⟩ one
  exact ⟨(given_step one).1.trans late,runs_step runs one,deferred_step late runs deferred one⟩

/-! ## Quitting -/

/-- The steps that a timer has left once the flag is set. -/
def timerLeft (timer : RepeatTimer.State) : Nat :=
  match timer.phase with
  | .polling => 3 * timer.armed + 1
  | .working => 3
  | .checking => 2
  | .rearming => 5
  | .returned | .threw => 0

def left (s : State) : Nat :=
  (if s.main = .getting then 1 else 0) + (if s.begun then 0 else 1) + timerLeft s.client.timer

/-- The user has quit. -/
structure Quitting (s : State) : Prop where
  runs : Runs s
  past : s.main ≠ .waiting

theorem timerLeft_step {s t : RepeatTimer.State} {label : RepeatTimer.Label} (sound : RepeatTimer.Sound s)
    (stop : s.stop = true) (returns : label ≠ .work_returns) (throws : label ≠ .work_throws) (other : label ≠ .set_stop)
    (one : RepeatTimer.step s label = some t) : 1 + timerLeft t ≤ timerLeft s := by
  have armed := RepeatTimer.armed_le_one sound
  unfold timerLeft
  unfold RepeatTimer.Sound at sound
  cases RepeatTimer.steps_of_step one with
  | expires polling some =>
    simp only [polling]
    omega
  | work_returns _ => exact absurd rfl returns
  | work_throws _ => exact absurd rfl throws
  | stops checking _ =>
    rw [checking] at sound
    simp only [checking,sound]
    omega
  | repeats _ running => rw [stop] at running; cases running
  | async_wait rearming =>
    rw [rearming] at sound
    simp only [rearming,sound]
    omega
  | run_returns polling none => simp [polling,none]
  | set_stop => exact absurd rfl other

theorem timerLeft_tick {s t : Client.State} {tick : Client.Tick} (worked : Client.step s (.periodic_work tick) = some t) :
    1 + timerLeft t.timer ≤ timerLeft s.timer := by
  obtain ⟨working,_,_,phase,_⟩ := tick_cases worked
  unfold timerLeft
  rcases phase with phase | phase <;> simp [working,phase]

theorem quitting_step {s t : State} {label : Label} (quitting : Quitting s) (one : step s label = some t) :
    Quitting t ∧ 1 + left t ≤ left s := by
  obtain ⟨runs,past⟩ := quitting
  have runs' := runs_step runs one
  unfold left
  cases steps_of_step one with
  | begins idle _ =>
    refine ⟨⟨runs',past⟩,?_⟩
    simp [idle]
    omega
  | timer begun other returns throws ticked =>
    have less := timerLeft_step runs.sound (runs.quit past).1 returns throws other ticked
    refine ⟨⟨runs',past⟩,?_⟩
    simp only [begun]
    omega
  | periodic_work begun worked =>
    have less := timerLeft_tick worked
    refine ⟨⟨runs',past⟩,?_⟩
    simp only [begun]
    omega
  | quits waiting _ => exact absurd waiting past
  | get_returns getting _ _ =>
    refine ⟨⟨runs',nofun⟩,?_⟩
    simp [getting]
    omega
  | get_throws getting _ _ =>
    refine ⟨⟨runs',nofun⟩,?_⟩
    simp [getting]
    omega

/-- A tick may end as it likes. -/
theorem tick_enabled {s : State} (begun : s.begun = true) (working : s.client.timer.phase = .working) (sample : Sample)
    (tick : Client.Tick) : (step s (.periodic_work sample tick)).isSome := by
  cases branch : Client.periodic_work tick with
  | none => simp [step,Client.step,Client.worked,branch,run_cons,RepeatTimer.step,begun,working]
  | some taken => cases taken <;> simp [step,Client.step,Client.worked,branch,run_cons,RepeatTimer.step,begun,working]

/-- Until `main` returns, the task begins, goes on or is got. -/
theorem quitting_enabled {s : State} (quitting : Quitting s) (open' : ∀ code, s.main ≠ .returned code) :
    ∃ label, (step s label).isSome := by
  obtain ⟨⟨sound,_,_,_⟩,past⟩ := quitting
  have getting : s.main = .getting := by
    cases main : s.main with
    | waiting => exact absurd main past
    | getting => rfl
    | returned code => exact absurd main (open' code)
  cases begun : s.begun with
  | false => exact ⟨.begins,by simp [step,begun,getting]⟩
  | true =>
    unfold RepeatTimer.Sound at sound
    cases phase : s.client.timer.phase <;> rw [phase] at sound
    case polling =>
      rcases sound with one | none
      · exact ⟨.timer .expires,by simp [step,Client.step,RepeatTimer.step,begun,phase,one]⟩
      · exact ⟨.timer .run_returns,by simp [step,Client.step,RepeatTimer.step,begun,phase,none.1]⟩
    case working => exact ⟨_,tick_enabled begun phase testSample Client.answered⟩
    case checking => exact ⟨.timer .check,by simp [step,Client.step,RepeatTimer.step,begun,phase]⟩
    case rearming => exact ⟨.timer .async_wait,by simp [step,Client.step,RepeatTimer.step,begun,phase]⟩
    case returned => exact ⟨.get_returns,by simp [step,getting,begun,phase]⟩
    case threw => exact ⟨.get_throws [],by simp [step,getting,begun,phase]⟩

def quitting : Ranking.Ranked step where
  Inv := Quitting
  Live _ := True
  Done s := ∃ code, s.main = .returned code
  counts _ := true
  measure := left
  keep _ _ _ quitting one := (quitting_step quitting one).1
  back _ _ _ _ _ _ := trivial
  uses _ _ _ quitting one _ := (quitting_step quitting one).2
  enabled s quitting open' := by
    obtain ⟨label,possible⟩ := quitting_enabled quitting (not_exists.mp open')
    obtain ⟨t,one⟩ := Option.isSome_iff_exists.mp possible
    exact ⟨label,t,rfl,one⟩
  dead _ dead := absurd trivial dead

theorem left_le {s : State} (runs : Runs s) : left s ≤ 6 := by
  have armed := RepeatTimer.armed_le_one runs.sound
  have main : (if s.main = .getting then 1 else 0) ≤ 1 := by split <;> omega
  unfold left
  cases begun : s.begun with
  | false =>
    obtain ⟨_,one,polling⟩ := runs.idle begun
    simp only [timerLeft,polling,one,Bool.false_eq_true,if_false]
    omega
  | true =>
    have timer : timerLeft s.client.timer ≤ 5 := by
      unfold timerLeft
      split <;> omega
    simp only [if_true]
    omega

/-- The ticks of a run. -/
def ticksOf (labels : List Label) : List (Sample × Client.Tick) :=
  labels.filterMap fun
    | .periodic_work sample tick => some (sample,tick)
    | _ => none

theorem ticksOf_append (first second : List Label) : ticksOf (first ++ second) = ticksOf first ++ ticksOf second :=
  List.filterMap_append

/-- Nothing but the end of a tick takes the program out of its work. -/
theorem working_kept {s t : State} {label : Label} (begun : s.begun = true) (working : s.client.timer.phase = .working)
    (quiet : ticksOf [label] = []) (one : step s label = some t) :
    t.begun = true ∧ t.client.timer.phase = .working := by
  cases steps_of_step one with
  | begins early _ => rw [begun] at early; cases early
  | timer _ no_set no_return no_throw stepped =>
    cases RepeatTimer.steps_of_step stepped with
    | expires phase _ => rw [working] at phase; cases phase
    | work_returns _ => exact absurd rfl no_return
    | work_throws _ => exact absurd rfl no_throw
    | stops phase _ => rw [working] at phase; cases phase
    | repeats phase _ => rw [working] at phase; cases phase
    | async_wait phase => rw [working] at phase; cases phase
    | run_returns phase _ => rw [working] at phase; cases phase
    | set_stop => exact absurd rfl no_set
  | periodic_work _ _ => cases quiet
  | quits _ _ => exact ⟨begun,working⟩
  | get_returns _ _ phase => rw [working] at phase; cases phase
  | get_throws _ _ phase => rw [working] at phase; cases phase

theorem pending_le_one {timer : RepeatTimer.State} (sound : RepeatTimer.Sound timer) : pending timer ≤ 1 := by
  unfold pending
  unfold RepeatTimer.Sound at sound
  cases phase : timer.phase <;> rw [phase] at sound <;> simp only at sound <;> simp <;> omega

theorem quitting_ticks {s t : State} {more : List Label} (quits : Quitting s) (ran : run step s more = some t) :
    (ticksOf more).length + pending t.client.timer ≤ pending s.client.timer := by
  refine run_induction (fun more t => (ticksOf more).length + pending t.client.timer ≤ pending s.client.timer)
    (by simp [ticksOf]) ?_ ran
  intro labels m label t before bound one
  have quits' : Quitting m := quitting.run_inv quits before
  rw [ticksOf_append,List.length_append]
  cases steps_of_step one with
  | timer _ _ returns throws ticked =>
    have less := pending_timer (quits'.runs.quit quits'.past).1 returns throws ticked
    exact (Nat.add_le_add_left less _).trans bound
  | periodic_work _ worked =>
    have less := pending_tick worked
    have one : ∀ sample tick, (ticksOf [.periodic_work sample tick]).length = 1 := fun _ _ => rfl
    rw [one]
    dsimp only
    omega
  | begins _ _ => exact bound
  | quits _ _ => exact bound
  | get_returns _ _ _ => exact bound
  | get_throws _ _ _ => exact bound

/-- However the task and the main thread take turns once the user has quit: the
    program takes six steps at most and makes one tick at most, and it can only stop
    by returning from `main`. -/
theorem client_quits {argv : List Bytes} {input : Bytes} {launch : Launch} {start s : State} {labels : List Label}
    (started : main_start argv input launch = some start) (ran : run step start labels = some s) (past : s.main ≠ .waiting) :
    ∀ more t, run step s more = some t → more.length ≤ 6 ∧ (ticksOf more).length ≤ 1 ∧
      ((∀ label, step t label = none) ↔ ∃ code, t.main = .returned code) := by
  intro more t goesOn
  have quits : Quitting s := ⟨run_runs started ran,past⟩
  have quits' : Quitting t := quitting.run_inv quits goesOn
  refine ⟨?_,?_,?_⟩
  · exact (quitting.length_le (fun _ => rfl) quits goesOn trivial).trans (left_le quits.runs)
  · have ticks := quitting_ticks quits goesOn
    have most := pending_le_one quits.runs.sound
    omega
  · constructor
    · intro stuck
      refine quitting.done_of_stuck quits' fun label u _ one => ?_
      rw [stuck label] at one
      cases one
    · rintro ⟨code,returned⟩ label
      cases one : step t label with
      | none => rfl
      | some u => exact absurd returned (running_of_step quits'.runs one code)

def testArgv : List Bytes := [lit "sys_info_client",lit "localhost",lit "8080",lit "jill"]

/-- The user quits, and a task that was put off sends its line. -/
def quitDeferred : List Label :=
  [.quits 2,.begins,.timer .expires,.periodic_work testSample Client.answered,.timer .check,.timer .run_returns,.get_returns]

theorem client_quits_deferred : ∃ start s, main_start testArgv (lit "quit\n") .deferred = some start ∧
    run step start [.quits 2] = some s ∧ ∀ more t, run step s more = some t → more.length ≤ 6 := by
  have quits : ((main_start testArgv (lit "quit\n") .deferred).bind fun start => run step start [.quits 2]).map State.main =
      some .getting := by decide +kernel
  obtain ⟨s,reached,getting⟩ := Option.map_eq_some_iff.mp quits
  obtain ⟨start,started,ran⟩ := Option.bind_eq_some_iff.mp reached
  have bounded := client_quits started ran (by rw [getting]; nofun)
  exact ⟨start,s,started,ran,fun more t goesOn => (bounded more t goesOn).1⟩

/-! ## How the program ends -/

/-- The code that `main` returns is that of its last tick. It returns only to a user who
    quit and after a tick at least; a task that was put off makes this one tick. -/
theorem client_exit {argv : List Bytes} {input : Bytes} {launch : Launch} {start s : State} {labels : List Label} {code : Nat}
    (started : main_start argv input launch = some start) (ran : run step start labels = some s)
    (returned : s.main = .returned code) :
    quit ∈ lines input ∧
    (∃ before last, s.client.ticks = before ++ [last] ∧ (∀ tick ∈ before, Client.periodic_work tick ≠ none) ∧
      code = if Client.periodic_work last = none then 1 else 0) ∧
    (launch = .deferred → s.client.ticks.length = 1) := by
  have runs := run_runs started ran
  obtain ⟨ticks,alone⟩ := run_ticks started ran
  obtain ⟨first,threw,last⟩ := run_ticked alone
  obtain ⟨_,phases⟩ := runs.ended code returned
  have some : s.client.ticks ≠ [] := by
    refine mt first ?_
    rcases phases with ⟨_,phase⟩ | ⟨_,phase⟩ <;> simp [phase]
  refine ⟨?_,?_,?_⟩
  · have typed := (runs.quit (by rw [returned]; nofun)).2
    obtain ⟨client_key,rfl⟩ := main_start_eq started
    rwa [run_constant State.input (fun _ _ _ one => (given_step one).2.2) ran] at typed
  · obtain ⟨before,final,split⟩ := List.eq_nil_or_concat s.client.ticks |>.resolve_left some
    rw [List.concat_eq_append] at split
    refine ⟨before,final,split,?_,?_⟩
    · intro tick member branch
      obtain ⟨earlier,later,among⟩ := List.append_of_mem member
      have none := (last earlier tick (later ++ [final]) (by simp [split,among]) branch).1
      simp at none
    · rcases phases with ⟨rfl,phase⟩ | ⟨rfl,phase⟩
      · rw [if_neg]
        intro branch
        have threw := (last before final [] split branch).2
        rw [phase] at threw
        cases threw
      · obtain ⟨tick,member,branch⟩ := threw phase
        obtain ⟨earlier,later,among⟩ := List.append_of_mem member
        -- The tick that threw is the last.
        obtain ⟨rfl,_⟩ := last earlier tick later among branch
        have same : tick = final := List.append_inj_right' (among.symm.trans split) rfl |> List.singleton_inj.mp
        rw [← same,if_pos branch]
  · rintro rfl
    have once := (run_deferred started ran).once
    have least := List.length_pos_of_ne_nil some
    omega

theorem client_exit_deferred : ∃ start s, main_start testArgv (lit "quit\n") .deferred = some start ∧
    run step start quitDeferred = some s ∧ s.main = .returned 0 ∧ s.client.ticks.length = 1 := by
  have ends : ((main_start testArgv (lit "quit\n") .deferred).bind fun start => run step start quitDeferred).map State.main =
      some (.returned 0) := by decide +kernel
  obtain ⟨s,reached,returned⟩ := Option.map_eq_some_iff.mp ends
  obtain ⟨start,started,ran⟩ := Option.bind_eq_some_iff.mp reached
  exact ⟨start,s,started,ran,returned,(client_exit started ran returned).2.2 rfl⟩

/-! ## The log -/

def records (client_key : Bytes) (ticks : List (Sample × Client.Tick)) : List Record :=
  ticks.flatMap fun entry => messages (line_to_be_written client_key entry.1) entry.2

/-- The log holds the records of the ticks, and then what `get` threw. -/
structure Logged (labels : List Label) (s : State) : Prop where
  ticks : (ticksOf labels).map Prod.snd = s.client.ticks
  ongoing : s.main ≠ .returned 1 → s.log = records s.client_key (ticksOf labels)
  ended : s.main = .returned 1 → ∃ what, s.log = records s.client_key (ticksOf labels) ++ [⟨.error,what⟩]

theorem ticksOf_snoc (labels : List Label) {label : Label} (silent : ticksOf [label] = []) :
    ticksOf (labels ++ [label]) = ticksOf labels := by
  rw [ticksOf_append,silent,List.append_nil]

theorem ticksOf_tick (labels : List Label) (sample : Sample) (tick : Client.Tick) :
    ticksOf (labels ++ [.periodic_work sample tick]) = ticksOf labels ++ [(sample,tick)] := ticksOf_append _ _

theorem logged_step {labels : List Label} {s t : State} {label : Label} (runs : Runs s) (logged : Logged labels s)
    (one : step s label = some t) : Logged (labels ++ [label]) t := by
  have running := running_of_step runs one 1
  obtain ⟨ticks,ongoing,_⟩ := logged
  have log := ongoing running
  cases steps_of_step one with
  | periodic_work _ worked =>
    rename_i sample tick client
    refine ⟨?_,fun _ => ?_,fun ended => absurd ended running⟩
    · rw [ticksOf_tick,List.map_append,ticks,(tick_cases worked).2.1]
      rfl
    · rw [ticksOf_tick,records,List.flatMap_append,List.flatMap_singleton,log]
      rfl
  | get_throws _ _ _ =>
    rw [← @ticksOf_snoc labels (.get_throws _) rfl] at ticks log
    exact ⟨ticks,fun other => absurd rfl other,fun _ => ⟨_,by rw [log]⟩⟩
  | begins _ _ =>
    rw [← @ticksOf_snoc labels .begins rfl] at ticks log
    exact ⟨ticks,fun _ => log,fun ended => absurd ended running⟩
  | timer _ _ _ _ _ =>
    rw [← @ticksOf_snoc labels (.timer _) rfl] at ticks log
    exact ⟨ticks,fun _ => log,fun ended => absurd ended running⟩
  | quits _ _ =>
    rw [← @ticksOf_snoc labels (.quits _) rfl] at ticks log
    exact ⟨ticks,fun _ => log,nofun⟩
  | get_returns _ _ _ =>
    rw [← @ticksOf_snoc labels .get_returns rfl] at ticks log
    exact ⟨ticks,fun _ => log,nofun⟩

theorem run_logged {argv : List Bytes} {input : Bytes} {launch : Launch} {start s : State} {labels : List Label}
    (started : main_start argv input launch = some start) (ran : run step start labels = some s) : Logged labels s := by
  have runs := runs_start started
  obtain ⟨client_key,rfl⟩ := main_start_eq started
  refine (run_induction (fun labels s => Runs s ∧ Logged labels s) ⟨runs,rfl,fun _ => rfl,nofun⟩ ?_ ran).2
  rintro labels m label t _ ⟨runs,logged⟩ one
  exact ⟨runs_step runs one,logged_step runs logged one⟩

theorem Logged.log_eq {labels : List Label} {s : State} (logged : Logged labels s) :
    ∃ ending, s.log = records s.client_key (ticksOf labels) ++ ending ∧
      (ending = [] ∧ s.main ≠ .returned 1 ∨ s.main = .returned 1 ∧ ∃ what, ending = [⟨.error,what⟩]) := by
  by_cases failed : s.main = .returned 1
  · obtain ⟨what,log⟩ := logged.ended failed
    exact ⟨_,log,.inr ⟨failed,what,rfl⟩⟩
  · exact ⟨[],by rw [logged.ongoing failed,List.append_nil],.inl ⟨rfl,failed⟩⟩

/-- The message of an info record. -/
def Record.info (record : Record) : Option Bytes := if record.severity_level = .info then some record.message else none

theorem messages_info (line : Bytes) (tick : Client.Tick) :
    (messages line tick).filterMap Record.info = (if tick.connected then some line else none).toList := by
  unfold messages
  cases tick.connected <;> cases Client.periodic_work tick with
  | none => rfl
  | some branch => cases branch <;> rfl

/-- Only a reply of the server makes a tick's work return. -/
theorem rejected_sent {tick : Client.Tick} (rejected : Client.periodic_work tick = some .not_authorized) :
    tick.connected = true ∧ tick.sent = some .NOT_AUTHORIZED := by
  rw [Client.periodic_work_eq] at rejected
  obtain ⟨reply,sent,branch⟩ := Option.map_eq_some_iff.mp rejected
  refine ⟨?_,?_⟩
  · by_contra unconnected
    simp [Client.Tick.sent,unconnected] at sent
  · rw [sent]
    cases reply with
    | NOT_AUTHORIZED => rfl
    | READ_SUCCESS => cases branch
    | READ_FAILURE =>
      dsimp only at branch
      split at branch <;> cases branch

/-- A tick that logs a fatal record was rejected, and that record is its last. -/
theorem messages_fatal {line : Bytes} {tick : Client.Tick} {record : Record} (member : record ∈ messages line tick)
    (fatal : record.severity_level = .fatal) : Client.periodic_work tick = some .not_authorized ∧
      messages line tick = [⟨.info,line⟩,record] := by
  have plain : ∀ {other : Record}, other ∈ (if tick.connected then [⟨.info,line⟩] else [] : List Record) → other.severity_level = .info := by
    intro other inside
    split at inside
    · rw [List.mem_singleton.mp inside]
    · cases inside
  unfold messages at member ⊢
  rcases List.mem_append.mp member with info | outcome
  · rw [plain info] at fatal
    cases fatal
  · cases branch : Client.periodic_work tick with
    | none =>
      rw [branch] at outcome
      cases outcome
    | some taken =>
      rw [branch] at outcome
      cases taken with
      | failure =>
        rw [List.mem_singleton.mp outcome] at fatal
        cases fatal
      | success => cases outcome
      | not_authorized =>
        refine ⟨rfl,?_⟩
        rw [(rejected_sent branch).1,List.mem_singleton.mp outcome]
        rfl

/-- A tick that was rejected is the last and the only one, and nothing is thrown after
    it. -/
theorem rejected_ends {argv : List Bytes} {input : Bytes} {launch : Launch} {start s : State} {labels : List Label}
    (started : main_start argv input launch = some start) (ran : run step start labels = some s)
    {entry : Sample × Client.Tick} (among : entry ∈ ticksOf labels)
    (rejected : Client.periodic_work entry.2 = some .not_authorized) : s.main ≠ .returned 1 ∧
      ∃ earlier, ticksOf labels = earlier ++ [entry] ∧
        ∀ other ∈ earlier, Client.periodic_work other.2 ≠ some .not_authorized := by
  obtain ⟨ticks,alone⟩ := run_ticks started ran
  have own := (run_logged started ran).ticks
  -- Nothing comes after a tick that was rejected.
  have last : ∀ {before after : List (Sample × Client.Tick)} {other : Sample × Client.Tick},
      ticksOf labels = before ++ other :: after → Client.periodic_work other.2 = some .not_authorized → after = [] := by
    intro before after other split branch
    rw [split,List.map_append,List.map_cons] at own
    exact List.map_eq_nil_iff.mp (Client.rejected_is_last alone _ _ _ own.symm branch).1
  obtain ⟨earlier,later,split⟩ := List.append_of_mem among
  obtain rfl := last split rejected
  refine ⟨?_,earlier,split,?_⟩
  · intro returned
    rcases ((run_runs started ran).ended 1 returned).2 with ⟨wrong,_⟩ | ⟨_,phase⟩
    · cases wrong
    · obtain ⟨tick,member,threw⟩ := (run_ticked alone).threw phase
      obtain ⟨before,after,among⟩ := List.append_of_mem member
      obtain ⟨rfl,_⟩ := (run_ticked alone).last before tick after among threw
      rw [split,List.map_append,List.map_singleton] at own
      have same : entry.2 = tick := List.singleton_inj.mp (List.append_inj_right' (own.trans among) rfl)
      rw [same,threw] at rejected
      cases rejected
  · intro other member branch
    obtain ⟨before,after,among⟩ := List.append_of_mem member
    have none := @last before (after ++ [entry]) other (by simp [split,among]) branch
    simp at none

/-- The log of a run: its info records are the lines of the ticks that were connected,
    in order; a fatal record comes from a tick that was rejected, and is the last. -/
theorem log_of_client {argv : List Bytes} {input : Bytes} {launch : Launch} {start s : State} {labels : List Label}
    (started : main_start argv input launch = some start) (ran : run step start labels = some s) :
    Logged labels s ∧
    s.log.filterMap Record.info = (ticksOf labels).filterMap (fun entry =>
      if entry.2.connected then some (line_to_be_written s.client_key entry.1) else none) ∧
    ∀ record ∈ s.log, record.severity_level = .fatal →
      ∃ before, s.log = before ++ [record] ∧ (∀ other ∈ before, other.severity_level ≠ .fatal) ∧
        ∃ ticks tick, s.client.ticks = ticks ++ [tick] ∧ tick.sent = some .NOT_AUTHORIZED := by
  have logged := run_logged started ran
  obtain ⟨ending,log,ends⟩ := logged.log_eq
  refine ⟨logged,?_,?_⟩
  · have quiet : ending.filterMap Record.info = [] := by
      rcases ends with ⟨rfl,_⟩ | ⟨_,what,rfl⟩ <;> rfl
    rw [log,List.filterMap_append,quiet,List.append_nil,records,List.filterMap_flatMap,List.filterMap_eq_flatMap_toList]
    simp only [messages_info]
  · intro record member fatal
    rw [log] at member
    rcases List.mem_append.mp member with inside | outside
    · obtain ⟨entry,among,own⟩ := List.mem_flatMap.mp inside
      obtain ⟨rejected,both⟩ := messages_fatal own fatal
      obtain ⟨running,earlier,split,others⟩ := rejected_ends started ran among rejected
      refine ⟨records s.client_key earlier ++ [⟨.info,line_to_be_written s.client_key entry.1⟩],?_,?_,
        earlier.map Prod.snd,entry.2,?_,(rejected_sent rejected).2⟩
      · rw [logged.ongoing running,split,records,List.flatMap_append,List.flatMap_singleton,both]
        simp [records]
      · intro other before fatal'
        rcases List.mem_append.mp before with inside | info
        · obtain ⟨entry',among',own'⟩ := List.mem_flatMap.mp inside
          exact others entry' among' (messages_fatal own' fatal').1
        · rw [List.mem_singleton.mp info] at fatal'
          cases fatal'
      · rw [← logged.ticks,split,List.map_append,List.map_singleton]
    · rcases ends with ⟨rfl,_⟩ | ⟨_,what,rfl⟩
      · cases outside
      · rw [List.mem_singleton.mp outside] at fatal
        cases fatal

theorem log_of_client_deferred : ∃ start s, main_start testArgv (lit "quit\n") .deferred = some start ∧
    run step start quitDeferred = some s ∧ s.log.filterMap Record.info = [line_to_be_written s.client_key testSample] := by
  have ends : ((main_start testArgv (lit "quit\n") .deferred).bind fun start => run step start quitDeferred).isSome := by
    decide +kernel
  obtain ⟨s,reached⟩ := Option.isSome_iff_exists.mp ends
  obtain ⟨start,started,ran⟩ := Option.bind_eq_some_iff.mp reached
  exact ⟨start,s,started,ran,(log_of_client started ran).2.1⟩

end SysInfo.ClientMain
