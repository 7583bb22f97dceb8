import Mathlib.Tactic.Ring
import SysInfo.RepeatTimer
import SysInfo.SingleServer

/-!
# When the timer works

The timer with a clock. The first expiry is one interval after the construction
and each later one an interval after the one before, whatever the clock reads.
Time passes while the work runs and while a wait is not yet over; a handler whose
expiry has passed is started before any more time passes.
-/

namespace SysInfo.TimerSchedule
open SysInfo.Transition SysInfo.RepeatTimer SysInfo.SingleServer

structure State where
  timer : RepeatTimer.State
  now : Int
  expires_at : Int
  /-- The expiry, the begin and, once it returned, the duration of every
      invocation of the work so far. -/
  expiries : List Int
  begins : List Int
  durations : List Int
  deriving DecidableEq

/-- A timer constructed at `constructed` whose `start_timer` is called at `started`. -/
def start (constructed interval started : Int) : State := ⟨start_timer,started,constructed + interval,[],[],[]⟩

inductive Input where
  | passes (time : Int)
  | does (label : Label)
  deriving DecidableEq

def mayPass (s : State) (time : Int) : Bool :=
  0 ≤ time && match s.timer.phase with
    | .polling => s.timer.armed = 0 || s.now + time ≤ s.expires_at
    | .checking | .rearming => false
    | .working | .returned | .threw => true

/-- What a step of the timer leaves behind. -/
def record (interval : Int) (s : State) (label : Label) (timer : RepeatTimer.State) : State :=
  match label with
  | .expires => { s with timer, expiries := s.expiries ++ [s.expires_at], begins := s.begins ++ [s.now] }
  | .work_returns => { s with timer, durations := s.durations ++ [s.now - s.begins.getLastD 0] }
  | .async_wait => { s with timer, expires_at := s.expires_at + interval }
  | _ => { s with timer }

def step (interval : Int) (s : State) : Input → Option State
  | .passes time => if mayPass s time then some { s with now := s.now + time } else none
  | .does label =>
    if label = .expires ∧ s.now < s.expires_at then none
    else (RepeatTimer.step s.timer label).map (record interval s label)

/-! ## The invariant -/

/-- The expiry of an invocation, counted from zero. -/
def expiry (constructed interval : Int) (i : ℕ) : Int := constructed + (i + 1) * interval

def duration (s : State) (i : ℕ) : Int := s.durations.getD i 0

/-- When an invocation is due to begin, given the durations of those before. -/
def due (constructed interval : Int) (s : State) (i : ℕ) : Int :=
  begins (expiry constructed interval) (duration s) i

/-- Where the invocation with number `s.begins.length` stands, or the one before. -/
def Stands (constructed interval : Int) (s : State) : Prop :=
  match s.timer.phase with
  | .polling => s.durations.length = s.begins.length ∧ (s.timer.armed = 0 ∨
      s.expires_at = expiry constructed interval s.begins.length ∧
      s.now ≤ due constructed interval s s.begins.length ∧
      due constructed interval s s.begins.length ≤ max s.expires_at s.now)
  | .working => ∃ i, s.begins.length = i + 1 ∧ s.durations.length = i ∧ s.expires_at = expiry constructed interval i
  | .checking | .rearming => ∃ i, s.begins.length = i + 1 ∧ s.durations.length = i + 1 ∧
      s.expires_at = expiry constructed interval i ∧ s.now = due constructed interval s i + duration s i
  | .returned | .threw => s.begins.length ≤ s.durations.length + 1

structure Scheduled (constructed interval : Int) (s : State) : Prop where
  expiries : s.expiries = (List.range s.begins.length).map (expiry constructed interval)
  begins : s.begins = (List.range s.begins.length).map (due constructed interval s)
  stands : Stands constructed interval s

variable {constructed interval : Int}

theorem scheduled_start {started : Int} (early : started < constructed + interval) :
    Scheduled constructed interval (start constructed interval started) := by
  refine ⟨rfl,rfl,rfl,.inr ⟨?_,?_,?_⟩⟩
  · simp [start,expiry]
  · simp only [start,due,List.length_nil,SingleServer.begins,expiry]
    omega
  · simp only [start,due,List.length_nil,SingleServer.begins,expiry]
    omega

/-- The schedule of the invocations so far depends on the durations of those that
    returned. -/
theorem due_congr {s t : State} {n : ℕ} (same : ∀ i < n, duration s i = duration t i) :
    due constructed interval s n = due constructed interval t n :=
  begins_congr same

/-- Time goes by. -/
theorem scheduled_passes {s : State} {time : Int} (scheduled : Scheduled constructed interval s)
    (may : mayPass s time = true) : Scheduled constructed interval { s with now := s.now + time } := by
  refine ⟨scheduled.expiries,scheduled.begins,?_⟩
  have stands := scheduled.stands
  have later : expiry constructed interval s.begins.length ≤ due constructed interval s s.begins.length := release_le_begins _
  unfold Stands at stands ⊢
  unfold mayPass at may
  simp only [Bool.and_eq_true,decide_eq_true_eq] at may
  obtain ⟨forward,may⟩ := may
  cases phase : s.timer.phase <;> simp only [phase] at stands may ⊢
  case polling =>
    obtain ⟨returned,waits⟩ := stands
    refine ⟨returned,?_⟩
    rcases waits with none | ⟨wait,early,late⟩
    · exact .inl none
    · simp only [Bool.or_eq_true,decide_eq_true_eq] at may
      rcases may with none | within
      · exact .inl none
      · refine .inr ⟨wait,?_,?_⟩
        · show s.now + time ≤ due constructed interval s s.begins.length
          omega
        · show due constructed interval s s.begins.length ≤ max s.expires_at (s.now + time)
          omega
  case checking => cases may
  case rearming => cases may
  all_goals exact stands

theorem expiry_succ (i : ℕ) : expiry constructed interval (i + 1) = expiry constructed interval i + interval := by
  unfold expiry
  push_cast
  ring

theorem getLastD_begins {s : State} (scheduled : Scheduled constructed interval s) {i : ℕ} (count : s.begins.length = i + 1) :
    s.begins.getLastD 0 = due constructed interval s i := by
  rw [scheduled.begins,count,List.range_succ]
  simp

/-- The loop starts the handler of a wait that is over. -/
theorem scheduled_expires {s : State} (scheduled : Scheduled constructed interval s) (waited : s.expires_at ≤ s.now)
    (polling : s.timer.phase = .polling) (armed : 0 < s.timer.armed) :
    Scheduled constructed interval
      (record interval s .expires { s.timer with armed := s.timer.armed - 1, phase := .working }) := by
  have stands := scheduled.stands
  unfold Stands at stands
  rw [polling] at stands
  obtain ⟨returned,none | ⟨wait,early,late⟩⟩ := stands
  · omega
  · have now : s.now = due constructed interval s s.begins.length := by omega
    refine ⟨?_,?_,⟨s.begins.length,by simp [record],returned,wait⟩⟩
    · show s.expiries ++ [s.expires_at] = (List.range (s.begins ++ [s.now]).length).map (expiry constructed interval)
      rw [List.length_append,List.length_singleton,List.range_succ,List.map_append,← scheduled.expiries,wait]
      rfl
    · show s.begins ++ [s.now] = (List.range (s.begins ++ [s.now]).length).map (due constructed interval s)
      rw [List.length_append,List.length_singleton,List.range_succ,List.map_append,← scheduled.begins,now]
      rfl

/-- The work returns, and the time it took is known. -/
theorem scheduled_work_returns {s : State} (scheduled : Scheduled constructed interval s) (working : s.timer.phase = .working) :
    Scheduled constructed interval (record interval s .work_returns { s.timer with phase := .checking }) := by
  have stands := scheduled.stands
  unfold Stands at stands
  rw [working] at stands
  obtain ⟨i,count,returned,wait⟩ := stands
  generalize after : record interval s .work_returns { s.timer with phase := .checking } = t
  have durations : t.durations = s.durations ++ [s.now - s.begins.getLastD 0] := by rw [← after]; rfl
  have before : ∀ j < i, duration t j = duration s j := by
    intro j lt
    simp [duration,durations,List.getElem?_append_left (show j < s.durations.length by omega)]
  have last : duration t i = s.now - due constructed interval s i := by
    rw [← getLastD_begins scheduled count,duration,durations,← returned]
    simp
  have same : ∀ j ≤ i, due constructed interval t j = due constructed interval s j :=
    fun j le => due_congr fun k lt => before k (by omega)
  have begins : t.begins = s.begins := by rw [← after]; rfl
  refine ⟨?_,?_,?_⟩
  · rw [begins,← scheduled.expiries,← after]
    rfl
  · rw [begins]
    refine scheduled.begins.trans (List.map_congr_left fun j member => ?_)
    have lt := List.mem_range.mp member
    exact (same j (by omega)).symm
  · have phase : t.timer.phase = .checking := by rw [← after]; rfl
    have now : t.now = s.now := by rw [← after]; rfl
    have expires_at : t.expires_at = s.expires_at := by rw [← after]; rfl
    unfold Stands
    rw [phase]
    refine ⟨i,by rw [begins,count],by simp [durations,returned],by rw [expires_at,wait],?_⟩
    rw [same i le_rfl,last,now]
    omega

/-- The next wait is armed for one interval after the last expiry. -/
theorem scheduled_async_wait {s : State} (scheduled : Scheduled constructed interval s) (rearming : s.timer.phase = .rearming) :
    Scheduled constructed interval
      (record interval s .async_wait { s.timer with armed := s.timer.armed + 1, phase := .polling }) := by
  have stands := scheduled.stands
  unfold Stands at stands
  rw [rearming] at stands
  obtain ⟨i,count,returned,wait,now⟩ := stands
  have next : due constructed interval s (i + 1) = max (s.expires_at + interval) s.now := by
    rw [now,wait,← expiry_succ]
    rfl
  refine ⟨scheduled.expiries,scheduled.begins,?_⟩
  show s.durations.length = s.begins.length ∧ (s.timer.armed + 1 = 0 ∨
    s.expires_at + interval = expiry constructed interval s.begins.length ∧
    s.now ≤ due constructed interval s s.begins.length ∧
    due constructed interval s s.begins.length ≤ max (s.expires_at + interval) s.now)
  rw [count,next]
  refine ⟨returned,.inr ⟨?_,le_max_right _ _,le_rfl⟩⟩
  rw [wait,expiry_succ]

theorem record_timer (s : State) (label : Label) (timer : RepeatTimer.State) : (record interval s label timer).timer = timer := by
  cases label <;> rfl

/-- The timer under the clock takes its own steps. -/
theorem timer_sound_step {s t : State} {input : Input} (sound : Sound s.timer) (one : step interval s input = some t) :
    Sound t.timer := by
  cases input with
  | passes time =>
    simp only [step] at one
    split at one
    · cases Option.some.inj one
      exact sound
    · cases one
  | does label =>
    simp only [step] at one
    split at one
    · cases one
    · obtain ⟨timer,moved,rfl⟩ := Option.map_eq_some_iff.mp one
      rw [record_timer]
      exact sound_step sound moved

theorem scheduled_step {s t : State} {input : Input} (sound : Sound s.timer) (scheduled : Scheduled constructed interval s)
    (one : step interval s input = some t) : Scheduled constructed interval t := by
  cases input with
  | passes time =>
    simp only [step] at one
    split at one
    · rename_i may
      cases Option.some.inj one
      exact scheduled_passes scheduled may
    · cases one
  | does label =>
    simp only [step] at one
    split at one
    · cases one
    · rename_i waited
      obtain ⟨timer,moved,rfl⟩ := Option.map_eq_some_iff.mp one
      have stands := scheduled.stands
      unfold Stands at stands
      cases steps_of_step moved with
      | expires polling armed => exact scheduled_expires scheduled (by simpa using waited) polling armed
      | work_returns working => exact scheduled_work_returns scheduled working
      | async_wait rearming => exact scheduled_async_wait scheduled rearming
      | work_throws working =>
        rw [working] at stands
        obtain ⟨i,count,returned,_⟩ := stands
        refine ⟨scheduled.expiries,scheduled.begins,?_⟩
        show s.begins.length ≤ s.durations.length + 1
        omega
      | stops checking stop =>
        rw [checking] at stands
        obtain ⟨i,count,returned,_⟩ := stands
        unfold Sound at sound
        rw [checking] at sound
        have same : s.durations.length = s.begins.length := by omega
        exact ⟨scheduled.expiries,scheduled.begins,same,.inl sound⟩
      | repeats checking _ =>
        rw [checking] at stands
        exact ⟨scheduled.expiries,scheduled.begins,stands⟩
      | run_returns polling _ =>
        rw [polling] at stands
        refine ⟨scheduled.expiries,scheduled.begins,?_⟩
        show s.begins.length ≤ s.durations.length + 1
        omega
      | set_stop => exact ⟨scheduled.expiries,scheduled.begins,scheduled.stands⟩

theorem run_scheduled {started : Int} (early : started < constructed + interval) {inputs : List Input} {s : State}
    (ran : run (step interval) (start constructed interval started) inputs = some s) :
    Sound s.timer ∧ Scheduled constructed interval s :=
  run_invariant (fun s => Sound s.timer ∧ Scheduled constructed interval s)
    (fun _ _ _ inv one => ⟨timer_sound_step inv.1 one,scheduled_step inv.1 inv.2 one⟩) ran
    ⟨sound_start,scheduled_start early⟩

/-- All but the last invocation of the work have returned. -/
theorem Scheduled.returned {s : State} (scheduled : Scheduled constructed interval s) :
    s.begins.length ≤ s.durations.length + 1 := by
  have stands := scheduled.stands
  unfold Stands at stands
  cases phase : s.timer.phase <;> rw [phase] at stands
  case polling =>
    obtain ⟨returned,_⟩ := stands
    omega
  case working =>
    obtain ⟨i,count,returned,_⟩ := stands
    omega
  case checking =>
    obtain ⟨i,count,returned,_⟩ := stands
    omega
  case rearming =>
    obtain ⟨i,count,returned,_⟩ := stands
    omega
  all_goals exact stands

/-! ## The schedule -/

/-- Every invocation, counted from zero, answers the expiry of its number and
    begins at the time in the closed form; none begins before its expiry or before
    the end of the one before, and with short work each begins with its expiry. -/
structure OnSchedule (constructed interval : Int) (s : State) : Prop where
  expiries : s.expiries.length = s.begins.length ∧
    ∀ (i : ℕ) t, s.expiries[i]? = some t → t = constructed + (i + 1) * interval
  closedForm : ∀ (i : ℕ) t, s.begins[i]? = some t → IsGreatest
    { b | ∃ k ≤ i, b = constructed + (k + 1) * interval + ∑ j ∈ Finset.Ico k i, duration s j } t
  notEarly : ∀ (i : ℕ) t, s.begins[i]? = some t → constructed + (i + 1) * interval ≤ t
  apart : ∀ (i : ℕ) t next, s.begins[i]? = some t → s.begins[i + 1]? = some next →
    i < s.durations.length ∧ t + duration s i ≤ next
  exact : (∀ d ∈ s.durations, d ≤ interval) → ∀ (i : ℕ) t, s.begins[i]? = some t → t = constructed + (i + 1) * interval

/-- An invocation begins when it is due. -/
theorem begun_due {s : State} (scheduled : Scheduled constructed interval s) {i : ℕ} {t : Int} (found : s.begins[i]? = some t) :
    i < s.begins.length ∧ t = due constructed interval s i := by
  obtain ⟨lt,_⟩ := List.getElem?_eq_some_iff.mp found
  rw [scheduled.begins,List.getElem?_map,List.getElem?_range lt] at found
  exact ⟨lt,(Option.some.inj found).symm⟩

theorem onSchedule_of_scheduled {s : State} (scheduled : Scheduled constructed interval s) : OnSchedule constructed interval s := by
  refine ⟨⟨?_,?_⟩,?_,?_,?_,?_⟩
  · rw [scheduled.expiries]
    simp
  · intro i t found
    obtain ⟨lt,_⟩ := List.getElem?_eq_some_iff.mp found
    rw [scheduled.expiries,List.length_map,List.length_range] at lt
    rw [scheduled.expiries,List.getElem?_map,List.getElem?_range lt] at found
    exact (Option.some.inj found).symm
  · intro i t found
    rw [(begun_due scheduled found).2]
    exact begins_isGreatest i
  · intro i t found
    have least : expiry constructed interval i ≤ due constructed interval s i := release_le_begins i
    rw [(begun_due scheduled found).2]
    exact least
  · intro i t next found found'
    have returned := scheduled.returned
    have lt := (begun_due scheduled found').1
    refine ⟨by omega,?_⟩
    rw [(begun_due scheduled found).2,(begun_due scheduled found').2]
    exact begins_add_le_succ i
  · intro short i t found
    obtain ⟨lt,rfl⟩ := begun_due scheduled found
    show begins (expiry constructed interval) (duration s) i = expiry constructed interval i
    refine begins_eq_release ?_
    intro j before
    have returned := scheduled.returned
    have inside : j < s.durations.length := by omega
    have le := short s.durations[j] (List.getElem_mem inside)
    have same : duration s j = s.durations[j] := by simp [duration,inside]
    show expiry constructed interval j + duration s j ≤ expiry constructed interval (j + 1)
    rw [same,expiry_succ]
    omega

/-! ## Every sequence of durations -/

/-- The flag is not set and the work throws nothing. -/
def Undisturbed (inputs : List Input) : Prop := ∀ input ∈ inputs, input ≠ .does .set_stop ∧ input ≠ .does .work_throws

/-- The timer waits for the next expiry. -/
def Waits (s : State) : Prop := s.timer = ⟨1,false,.polling⟩

/-- The rest of a wait, where there is one. -/
theorem wait_over {s : State} (waits : Waits s) : ∃ inputs t, run (step interval) s inputs = some t ∧ Undisturbed inputs ∧
    Waits t ∧ t.expires_at ≤ t.now ∧ t.begins = s.begins ∧ t.durations = s.durations := by
  by_cases ahead : s.now < s.expires_at
  · have one : step interval s (.passes (s.expires_at - s.now)) = some { s with now := s.now + (s.expires_at - s.now) } := by
      have may : mayPass s (s.expires_at - s.now) = true := by
        unfold mayPass
        rw [waits]
        simp
        omega
      simp [step,may]
    refine ⟨_,_,run_singleton_some.mpr one,?_,waits,?_,rfl,rfl⟩
    · simp [Undisturbed]
    · show s.expires_at ≤ s.now + (s.expires_at - s.now)
      omega
  · exact ⟨[],s,rfl,by simp [Undisturbed],waits,by omega,rfl,rfl⟩

/-- One invocation of the work that takes the time `d`. -/
theorem work_round {s : State} (waits : Waits s) (past : s.expires_at ≤ s.now) {d : Int} (positive : 0 ≤ d) :
    ∃ inputs t, run (step interval) s inputs = some t ∧ Undisturbed inputs ∧ Waits t ∧
      t.begins.length = s.begins.length + 1 ∧ t.durations = s.durations ++ [d] := by
  obtain ⟨timer,now,expires_at,expiries,begins,durations⟩ := s
  cases waits
  have notEarly : ¬ now < expires_at := by simpa using past
  refine ⟨[.does .expires,.passes d,.does .work_returns,.does .check,.does .async_wait],
    ⟨⟨1,false,.polling⟩,now + d,expires_at + interval,expiries ++ [expires_at],begins ++ [now],durations ++ [d]⟩,?_,?_,rfl,
    by simp,rfl⟩
  · simp [run,step,notEarly,RepeatTimer.step,record,mayPass,positive]
  · simp [Undisturbed]

theorem runs_every_schedule {started : Int} {durations : List Int} (positive : ∀ d ∈ durations, 0 ≤ d) :
    ∃ inputs s, run (step interval) (start constructed interval started) inputs = some s ∧ Undisturbed inputs ∧ Waits s ∧
      s.begins.length = durations.length ∧ s.durations = durations := by
  induction durations using List.reverseRecOn with
  | nil => exact ⟨[],_,rfl,by simp [Undisturbed],rfl,rfl,rfl⟩
  | append_singleton durations d ih =>
    obtain ⟨before,s,ran,calm,waits,count,lasted⟩ := ih fun e member => positive e (by simp [member])
    obtain ⟨waiting,m,waited,calm',waits',past,same,same'⟩ := @wait_over interval s waits
    obtain ⟨working,t,worked,calm'',waits'',count',lasted'⟩ := @work_round interval m waits' past d (positive d (by simp))
    refine ⟨before ++ (waiting ++ working),t,?_,?_,waits'',?_,?_⟩
    · exact run_append_some.mpr ⟨s,ran,run_append_some.mpr ⟨m,waited,worked⟩⟩
    · intro input member
      rcases List.mem_append.mp member with first | rest
      · exact calm input first
      · rcases List.mem_append.mp rest with second | third
        · exact calm' input second
        · exact calm'' input third
    · rw [count',same,count,List.length_append,List.length_singleton]
    · rw [lasted',same',lasted]

/-- Whatever the work takes, a run of the timer has it; and every run of the timer
    keeps to the schedule. -/
theorem timer_keeps_schedule {constructed interval started : Int} (early : started < constructed + interval) :
    (∀ durations : List Int, (∀ d ∈ durations, 0 ≤ d) →
      ∃ inputs s, run (step interval) (start constructed interval started) inputs = some s ∧ Undisturbed inputs ∧
        s.begins.length = durations.length ∧ s.durations = durations) ∧
    ∀ inputs s, run (step interval) (start constructed interval started) inputs = some s → OnSchedule constructed interval s := by
  refine ⟨?_,?_⟩
  · intro durations positive
    obtain ⟨inputs,s,ran,calm,_,count,lasted⟩ := runs_every_schedule positive
    exact ⟨inputs,s,ran,calm,count,lasted⟩
  · intro inputs s ran
    exact onSchedule_of_scheduled (run_scheduled early ran).2

/-- A timer of one minute whose work overruns by a half, counted in seconds. -/
theorem timer_keeps_schedule_overrun : ∃ inputs s, run (step 60) (start 0 60 1) inputs = some s ∧ Undisturbed inputs ∧
    s.durations = [90,5] ∧ OnSchedule 0 60 s := by
  obtain ⟨every,kept⟩ := @timer_keeps_schedule 0 60 1 (by decide)
  obtain ⟨inputs,s,ran,calm,_,lasted⟩ := every [90,5] (by decide)
  exact ⟨inputs,s,ran,calm,lasted,kept inputs s ran⟩

/-! ## Catching up -/

/-- After work that overran, the invocations follow each other without a pause as long
    as they begin late; and while each of them takes `most` of the interval at most, the
    delay of the first is made up for, until they begin with their expiries again. -/
theorem timer_catches_up {constructed interval started most : Int} (early : started < constructed + interval)
    (room : most ≤ interval) {inputs : List Input} {s : State} {i k : ℕ} {t u : Int}
    (ran : run (step interval) (start constructed interval started) inputs = some s)
    (first : s.begins[i]? = some t) (later : s.begins[i + k]? = some u)
    (short : ∀ j, i ≤ j → j < i + k → duration s j ≤ most) :
    u ≤ max (constructed + (i + k + 1) * interval) (t + k * most) ∧
    (t + k * most ≤ constructed + (i + k + 1) * interval → u = constructed + (i + k + 1) * interval) ∧
    ∀ (j : ℕ) b e, s.begins[j]? = some b → s.begins[j + 1]? = some e → constructed + (j + 2) * interval < e →
      e = b + duration s j := by
  obtain ⟨_,scheduled⟩ := run_scheduled early ran
  obtain ⟨_,rfl⟩ := begun_due scheduled first
  obtain ⟨_,rfl⟩ := begun_due scheduled later
  have expires : expiry constructed interval (i + k) = constructed + (i + k + 1) * interval := by
    unfold expiry
    push_cast
    ring
  have bound : due constructed interval s (i + k) ≤
      max (constructed + (i + k + 1) * interval) (due constructed interval s i + k * most) := by
    rw [← expires,← nsmul_eq_mul]
    apply begins_catch_up
    · intro j _ _
      rw [expiry_succ]
      omega
    · exact short
  refine ⟨bound,?_,?_⟩
  · intro caught
    have least : expiry constructed interval (i + k) ≤ due constructed interval s (i + k) := release_le_begins _
    rw [max_eq_left caught] at bound
    omega
  · intro j b e began next late
    rw [(begun_due scheduled began).2,(begun_due scheduled next).2] at *
    apply begins_of_late
    have next : expiry constructed interval (j + 1) = constructed + (j + 2) * interval := by
      unfold expiry
      push_cast
      ring
    rwa [next]

/-- A tick of a minute that overran by a half, and one of five seconds: the third tick
    begins with its expiry again. -/
def overrun : List Input :=
  [.passes 59,.does .expires,.passes 90,.does .work_returns,.does .check,.does .async_wait,.does .expires,.passes 5,
    .does .work_returns,.does .check,.does .async_wait,.passes 25,.does .expires]

theorem timer_catches_up_overrun : ∃ s, ∃ u : Int, run (step 60) (start 0 60 1) overrun = some s ∧ s.begins[1]? = some 150 ∧
    s.begins[2]? = some u ∧ u = 0 + ((1 : ℕ) + (1 : ℕ) + 1) * 60 := by
  have ran : run (step 60) (start 0 60 1) overrun =
      some ⟨⟨0,false,.working⟩,180,180,[60,120,180],[60,150,180],[90,5]⟩ := by decide
  obtain ⟨_,caught,_⟩ := @timer_catches_up 0 60 1 5 (by decide) (by decide) _ _ 1 1 150 180 ran rfl rfl (by decide)
  exact ⟨_,180,ran,rfl,rfl,caught (by decide)⟩

end SysInfo.TimerSchedule
