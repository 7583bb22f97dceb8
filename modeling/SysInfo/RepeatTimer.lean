import SysInfo.Transition

/-!
# The repeating timer of the client

`start_timer` arms one wait and runs the handlers; `work` calls the user's work
and then arms the next wait unless it finds the flag set. The flag belongs to the
caller, who may set it at any moment. What the work throws leaves `work` and
`io_service.run()`.
-/

namespace SysInfo.RepeatTimer
open SysInfo.Transition

/-- Where the thread in `io_service.run()` is: between two handlers, in the user's
    work, before the test of the flag, before the next wait is armed, or past
    `run()`. -/
inductive Phase where
  | polling
  | working
  | checking
  | rearming
  | returned
  | threw
  deriving DecidableEq

structure State where
  armed : Nat
  stop : Bool
  phase : Phase
  deriving DecidableEq

def start_timer : State := ⟨1,false,.polling⟩

inductive Label where
  | expires
  | work_returns
  | work_throws
  | check
  | async_wait
  | run_returns
  | set_stop
  deriving DecidableEq

def step (s : State) : Label → Option State
  | .expires =>
    if s.phase = .polling ∧ 0 < s.armed then some { s with armed := s.armed - 1, phase := .working } else none
  | .work_returns => if s.phase = .working then some { s with phase := .checking } else none
  | .work_throws => if s.phase = .working then some { s with phase := .threw } else none
  | .check => if s.phase = .checking then some { s with phase := if s.stop then .polling else .rearming } else none
  | .async_wait => if s.phase = .rearming then some { s with armed := s.armed + 1, phase := .polling } else none
  | .run_returns => if s.phase = .polling ∧ s.armed = 0 then some { s with phase := .returned } else none
  | .set_stop => some { s with stop := true }

/-- What a step does, guards included. -/
inductive Steps (s : State) : Label → State → Prop where
  | expires : s.phase = .polling → 0 < s.armed → Steps s .expires { s with armed := s.armed - 1, phase := .working }
  | work_returns : s.phase = .working → Steps s .work_returns { s with phase := .checking }
  | work_throws : s.phase = .working → Steps s .work_throws { s with phase := .threw }
  | stops : s.phase = .checking → s.stop = true → Steps s .check { s with phase := .polling }
  | repeats : s.phase = .checking → s.stop = false → Steps s .check { s with phase := .rearming }
  | async_wait : s.phase = .rearming → Steps s .async_wait { s with armed := s.armed + 1, phase := .polling }
  | run_returns : s.phase = .polling → s.armed = 0 → Steps s .run_returns { s with phase := .returned }
  | set_stop : Steps s .set_stop { s with stop := true }

theorem steps_of_step {s t : State} {label : Label} (one : step s label = some t) : Steps s label t := by
  cases label with
  | set_stop =>
    cases one
    exact .set_stop
  | check =>
    simp only [step] at one
    split at one
    · rename_i guard
      cases one
      by_cases stop : s.stop = true
      · rw [if_pos stop]
        exact .stops guard stop
      · rw [if_neg stop]
        exact .repeats guard (by simpa using stop)
    · cases one
  | _ =>
    simp only [step] at one
    split at one
    · rename_i guard
      cases one
      first
        | exact .work_returns guard
        | exact .work_throws guard
        | exact .async_wait guard
        | exact .expires guard.1 guard.2
        | exact .run_returns guard.1 guard.2
    · cases one

/-- One wait is armed between two handlers, unless the flag stopped the timer, and
    none in a handler or past `run()`. -/
def Sound (s : State) : Prop :=
  match s.phase with
  | .polling => s.armed = 1 ∨ s.armed = 0 ∧ s.stop = true
  | .working | .checking | .rearming | .threw => s.armed = 0
  | .returned => s.armed = 0 ∧ s.stop = true

theorem sound_start : Sound start_timer := .inl rfl

theorem sound_step {s t : State} {label : Label} (sound : Sound s) (one : step s label = some t) : Sound t := by
  unfold Sound at sound ⊢
  cases steps_of_step one with
  | expires polling armed =>
    rw [polling] at sound
    show s.armed - 1 = 0
    omega
  | work_returns working => rw [working] at sound; exact sound
  | work_throws working => rw [working] at sound; exact sound
  | stops checking stop => rw [checking] at sound; exact .inr ⟨sound,stop⟩
  | repeats checking _ => rw [checking] at sound; exact sound
  | async_wait rearming =>
    rw [rearming] at sound
    refine .inl ?_
    show s.armed + 1 = 1
    omega
  | run_returns polling armed =>
    rw [polling] at sound
    refine ⟨armed,?_⟩
    rcases sound with one | none
    · omega
    · exact none.2
  | set_stop =>
    cases phase : s.phase <;> rw [phase] at sound
    case polling => exact sound.imp id fun none => ⟨none.1,rfl⟩
    case returned => exact ⟨sound.1,rfl⟩
    all_goals exact sound

/-! ## Ticks -/

/-- The handler of an expired wait is not under way. -/
def BetweenTicks (s : State) : Prop := s.phase ≠ .working ∧ s.phase ≠ .checking ∧ s.phase ≠ .rearming

/-- As long as the flag is not set, a wait is armed after each tick. -/
def KeepsTicking (s : State) : Prop := s.stop = false → BetweenTicks s → 0 < s.armed

/-- Only what the work throws can leave the timer without a wait. -/
theorem keepsTicking_iff {s : State} (sound : Sound s) : KeepsTicking s ↔ (s.phase = .threw → s.stop = true) := by
  unfold Sound at sound
  constructor
  · intro keeps threw
    by_contra running
    rw [threw] at sound
    have armed := keeps (by simpa using running) (by simp [BetweenTicks,threw])
    simp only at sound
    omega
  · intro stopped running between
    cases phase : s.phase <;> rw [phase] at sound
    case polling =>
      rcases sound with one | none
      · omega
      · rw [running] at none
        cases none.2
    case returned =>
      rw [running] at sound
      cases sound.2
    case threw =>
      rw [running] at stopped
      cases stopped phase
    all_goals exact absurd phase (by simp [between.1,between.2.1,between.2.2])

/-- Only `set_stop` sets the flag. -/
theorem stop_of_step {s t : State} {label : Label} (one : step s label = some t) (other : label ≠ .set_stop)
    (stop : t.stop = true) : s.stop = true := by
  cases steps_of_step one with
  | set_stop => exact absurd rfl other
  | _ => exact stop

theorem threw_step {s t : State} {label : Label} (one : step s label = some t) (threw : t.phase = .threw) :
    (label = .work_throws ∧ t.stop = s.stop) ∨ (s.phase = .threw ∧ (s.stop = true → t.stop = true)) := by
  cases steps_of_step one with
  | work_throws _ => exact .inl ⟨rfl,rfl⟩
  | set_stop => exact .inr ⟨threw,fun _ => rfl⟩
  | _ => cases threw

/-- The flag is set and nothing of the timer is left to happen but its return. -/
def Over (s : State) : Prop := s.stop = true ∧ s.armed = 0 ∧ s.phase ≠ .working ∧ s.phase ≠ .rearming

theorem over_step {s t : State} {label : Label} (spent : Over s) (one : step s label = some t) : Over t := by
  obtain ⟨stopped,none,idle,waits⟩ := spent
  cases steps_of_step one with
  | expires _ armed => omega
  | work_returns working => exact absurd working idle
  | work_throws working => exact absurd working idle
  | stops _ _ => exact ⟨stopped,none,nofun,nofun⟩
  | repeats _ running => rw [stopped] at running; cases running
  | async_wait rearming => exact absurd rearming waits
  | run_returns _ _ => exact ⟨stopped,none,nofun,nofun⟩
  | set_stop => exact ⟨rfl,none,idle,waits⟩

/-! ## Stopping -/

theorem run_sound {inputs : List Label} {s : State} (ran : run step start_timer inputs = some s) : Sound s :=
  run_invariant Sound (fun _ _ _ sound one => sound_step sound one) ran sound_start

theorem armed_le_one {s : State} (sound : Sound s) : s.armed ≤ 1 := by
  unfold Sound at sound
  cases phase : s.phase <;> rw [phase] at sound
  case polling => omega
  case returned => simp only at sound; omega
  all_goals simp only at sound; omega

/-- The invocations of the work that can still begin once the flag is set. -/
def remaining (s : State) : Nat := s.armed + if s.phase = .rearming then 1 else 0

theorem remaining_le_one {s : State} (sound : Sound s) : remaining s ≤ 1 := by
  unfold remaining
  by_cases rearming : s.phase = .rearming
  · unfold Sound at sound
    rw [rearming] at sound
    rw [if_pos rearming]
    simp only at sound
    omega
  · have armed := armed_le_one sound
    rw [if_neg rearming]
    omega

theorem remaining_under_way {s : State} (sound : Sound s) (underWay : s.phase = .working ∨ s.phase = .checking) :
    remaining s = 0 := by
  unfold remaining
  unfold Sound at sound
  rcases underWay with phase | phase
  · rw [phase] at sound ⊢
    simpa using sound
  · rw [phase] at sound ⊢
    simpa using sound

/-- An invocation that begins uses up one of those that remain; the flag stays set. -/
theorem remaining_step {s t : State} {label : Label} (stopped : s.stop = true) (one : step s label = some t) :
    t.stop = true ∧ [label].count .expires + remaining t ≤ remaining s := by
  unfold remaining
  cases steps_of_step one with
  | expires polling armed => exact ⟨stopped,by simp [polling]; omega⟩
  | work_returns working => exact ⟨stopped,by simp [working]⟩
  | work_throws working => exact ⟨stopped,by simp [working]⟩
  | stops checking _ => exact ⟨stopped,by simp [checking]⟩
  | repeats _ running => rw [stopped] at running; cases running
  | async_wait rearming => exact ⟨stopped,by simp [rearming]⟩
  | run_returns polling _ => exact ⟨stopped,by simp [polling]⟩
  | set_stop => exact ⟨rfl,by simp⟩

theorem run_remaining {s t : State} {labels : List Label} (stopped : s.stop = true) (ran : run step s labels = some t) :
    t.stop = true ∧ labels.count .expires + remaining t ≤ remaining s := by
  refine run_induction (fun labels t => t.stop = true ∧ labels.count .expires + remaining t ≤ remaining s)
    ⟨stopped,by simp⟩ ?_ ran
  rintro labels m label t _ ⟨still,before⟩ one
  obtain ⟨set,after⟩ := remaining_step still one
  refine ⟨set,?_⟩
  rw [List.count_append]
  omega

/-- The test has seen the flag: the handlers are done with. -/
def Finished (s : State) : Prop := s.stop = true ∧ s.armed = 0 ∧ (s.phase = .polling ∨ s.phase = .returned)

theorem finished_of_check {s t : State} (sound : Sound s) (stopped : s.stop = true) (one : step s .check = some t) :
    Finished t := by
  cases steps_of_step one with
  | stops checking _ =>
    unfold Sound at sound
    rw [checking] at sound
    exact ⟨stopped,sound,.inl rfl⟩
  | repeats _ running => rw [stopped] at running; cases running

theorem finished_step {s t : State} {label : Label} (finished : Finished s) (one : step s label = some t) :
    Finished t ∧ (label = .run_returns ∨ label = .set_stop) := by
  obtain ⟨stopped,none,phase⟩ := finished
  have idle : s.phase ≠ .working ∧ s.phase ≠ .checking ∧ s.phase ≠ .rearming := by
    rcases phase with phase | phase <;> simp [phase]
  cases steps_of_step one with
  | run_returns _ _ => exact ⟨⟨stopped,none,.inr rfl⟩,.inl rfl⟩
  | set_stop => exact ⟨⟨rfl,none,phase⟩,.inr rfl⟩
  | expires _ armed => omega
  | work_returns working => exact absurd working idle.1
  | work_throws working => exact absurd working idle.1
  | stops checking _ => exact absurd checking idle.2.1
  | repeats checking _ => exact absurd checking idle.2.1
  | async_wait rearming => exact absurd rearming idle.2.2

theorem run_finished {s t : State} {labels : List Label} (finished : Finished s) (ran : run step s labels = some t) :
    Finished t ∧ ∀ label ∈ labels, label = .run_returns ∨ label = .set_stop := by
  refine run_induction (fun labels t => Finished t ∧ ∀ label ∈ labels, label = .run_returns ∨ label = .set_stop)
    ⟨finished,by simp⟩ ?_ ran
  rintro labels m label t _ ⟨before,quiet⟩ one
  obtain ⟨after,last⟩ := finished_step before one
  refine ⟨after,?_⟩
  intro other member
  rcases List.mem_append.mp member with earlier | new
  · exact quiet other earlier
  · rw [List.mem_singleton.mp new]
    exact last

/-- Nothing is left to happen but the return of `run()`, which is never held up. -/
def Returns (s : State) : Prop :=
  s.armed = 0 ∧ (s.phase = .returned ∨ s.phase = .polling ∧ ∃ t, step s .run_returns = some t ∧ t.phase = .returned)

theorem returns_of_finished {s : State} (finished : Finished s) : Returns s := by
  obtain ⟨_,none,phase⟩ := finished
  refine ⟨none,?_⟩
  rcases phase with polling | returned
  · exact .inr ⟨polling,{ s with phase := .returned },by simp [step,polling,none],rfl⟩
  · exact .inl returned

/-- At most one wait is armed; after the flag is set the work begins at most once
    more, and not at all if it was under way; and the test that sees the flag
    leaves `run()` nothing but to return. -/
theorem stop_is_prompt {inputs : List Label} {s : State} (ran : run step start_timer inputs = some s) :
    s.armed ≤ 1 ∧
    (∀ before after, inputs = before ++ .set_stop :: after → after.count .expires ≤ 1) ∧
    (∀ before after m, inputs = before ++ .set_stop :: after → run step start_timer before = some m →
      m.phase = .working ∨ m.phase = .checking → .expires ∉ after) ∧
    (∀ before after m, inputs = before ++ .check :: after → run step start_timer before = some m → m.stop = true →
      Returns s ∧ ∀ label ∈ after, label = .run_returns ∨ label = .set_stop) := by
  have later : ∀ {before after m}, inputs = before ++ .set_stop :: after → run step start_timer before = some m →
      after.count .expires ≤ remaining m := by
    intro before after m split reached
    rw [split] at ran
    obtain ⟨m',reached',rest⟩ := run_append_some.mp ran
    cases Option.some.inj (reached.symm.trans reached')
    obtain ⟨set,one,rest⟩ := run_cons_some.mp rest
    cases steps_of_step one
    have bound := (run_remaining rfl rest).2
    have same : remaining { m with stop := true } = remaining m := rfl
    omega
  refine ⟨armed_le_one (run_sound ran),?_,?_,?_⟩
  · intro before after split
    have whole := ran
    rw [split] at whole
    obtain ⟨m,reached,_⟩ := run_append_some.mp whole
    exact Nat.le_trans (later split reached) (remaining_le_one (run_sound reached))
  · intro before after m split reached underWay
    have bound := later split reached
    rw [remaining_under_way (run_sound reached) underWay] at bound
    exact List.count_eq_zero.mp (by omega)
  · intro before after m split reached stopped
    rw [split] at ran
    obtain ⟨m',reached',rest⟩ := run_append_some.mp ran
    cases Option.some.inj (reached.symm.trans reached')
    obtain ⟨_,one,rest⟩ := run_cons_some.mp rest
    obtain ⟨finished,quiet⟩ := run_finished (finished_of_check (run_sound reached) stopped one) rest
    exact ⟨returns_of_finished finished,quiet⟩

/-- The flag set while the first tick is waited for: one tick, and the end. -/
theorem stop_is_prompt_first_wait : ∃ s,
    run step start_timer [.set_stop,.expires,.work_returns,.check,.run_returns] = some s ∧ s.phase = .returned ∧
      [Label.expires,.work_returns,.check,.run_returns].count .expires ≤ 1 := by
  have ran : run step start_timer [.set_stop,.expires,.work_returns,.check,.run_returns] = some ⟨0,true,.returned⟩ := rfl
  exact ⟨_,ran,rfl,(stop_is_prompt ran).2.1 [] _ rfl⟩

end SysInfo.RepeatTimer
