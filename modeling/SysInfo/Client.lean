import SysInfo.RepeatTimer
import SysInfo.Session

/-!
# The periodic task of the client

`async_client_task`: a repeating timer whose work connects, writes a line, reads
one byte of the reply and compares the array it read into with `"1"` and `"2"`.
-/

namespace SysInfo.Client
open SysInfo.Text SysInfo.Transition SysInfo.Session

/-- What a tick meets: whether `connect` and `write` return, which reply of the
    server `read` gets, and `char reply[3]` as the stack left it. -/
structure Tick where
  connected : Bool
  written : Bool
  answer : Option Reply
  reply : Byte × Byte × Byte
  deriving DecidableEq

/-- The reply that the server sent in a tick and the client read. -/
def Tick.sent (tick : Tick) : Option Reply := if tick.connected && tick.written then tick.answer else none

inductive Branch where
  | failure
  | not_authorized
  | success
  deriving DecidableEq

/-- `boost::asio::read` of `length` bytes into an array. -/
def read (array wire : Bytes) (length : Nat) : Bytes := wire.take length ++ array.drop length

/-- A string literal with its NUL. -/
def literal (text : String) : Bytes := lit text ++ [0]

/-- The work of a tick; `none` where a `boost::system::system_error` leaves it. -/
def periodic_work (tick : Tick) : Option Branch := do
  guard tick.connected
  guard tick.written
  let answer ← tick.answer
  let reply := read [tick.reply.1,tick.reply.2.1,tick.reply.2.2] answer.wire 1
  return if strcmp reply (literal "1") = some 0 then .failure
    else if strcmp reply (literal "2") = some 0 then .not_authorized
    else .success

structure State where
  timer : RepeatTimer.State
  ticks : List Tick

def start : State := ⟨RepeatTimer.start_timer,[]⟩

inductive Label where
  | timer (label : RepeatTimer.Label)
  | periodic_work (tick : Tick)

/-- What the work of a tick does to its timer: the not-authorized branch sets the
    flag before it returns. -/
def worked : Option Branch → List RepeatTimer.Label
  | none => [.work_throws]
  | some .not_authorized => [.set_stop,.work_returns]
  | some _ => [.work_returns]

def step (s : State) : Label → Option State
  | .timer label =>
    if label = .work_returns ∨ label = .work_throws then none
    else (RepeatTimer.step s.timer label).map fun timer => { s with timer }
  | .periodic_work tick =>
    (run RepeatTimer.step s.timer (worked (periodic_work tick))).map fun timer => ⟨timer,s.ticks ++ [tick]⟩

/-- What a step does, guards included. -/
inductive Steps (s : State) : Label → State → Prop where
  | timer {label timer} : label ≠ .work_throws → RepeatTimer.step s.timer label = some timer →
      Steps s (.timer label) { s with timer }
  | threw {tick} : s.timer.phase = .working → periodic_work tick = none →
      Steps s (.periodic_work tick) ⟨{ s.timer with phase := .threw },s.ticks ++ [tick]⟩
  | rejected {tick} : s.timer.phase = .working → periodic_work tick = some .not_authorized →
      Steps s (.periodic_work tick) ⟨{ s.timer with stop := true, phase := .checking },s.ticks ++ [tick]⟩
  | returned {tick branch} : s.timer.phase = .working → periodic_work tick = some branch → branch ≠ .not_authorized →
      Steps s (.periodic_work tick) ⟨{ s.timer with phase := .checking },s.ticks ++ [tick]⟩

theorem steps_of_step {s t : State} {label : Label} (one : step s label = some t) : Steps s label t := by
  cases label with
  | timer label =>
    simp only [step] at one
    split at one
    · cases one
    · rename_i other
      obtain ⟨timer,stepped,rfl⟩ := Option.map_eq_some_iff.mp one
      exact .timer (fun throws => other (.inr throws)) stepped
  | periodic_work tick =>
    obtain ⟨timer,worked,rfl⟩ := Option.map_eq_some_iff.mp one
    cases branch : periodic_work tick with
    | none =>
      rw [branch] at worked
      cases RepeatTimer.steps_of_step (run_singleton_some.mp worked) with
      | work_throws working => exact .threw working branch
    | some taken =>
      cases taken with
      | not_authorized =>
        rw [branch] at worked
        obtain ⟨m,set,returned⟩ := run_cons_some.mp worked
        cases RepeatTimer.steps_of_step set with
        | set_stop =>
          cases RepeatTimer.steps_of_step (run_singleton_some.mp returned) with
          | work_returns working => exact .rejected working branch
      | failure =>
        rw [branch] at worked
        cases RepeatTimer.steps_of_step (run_singleton_some.mp worked) with
        | work_returns working => exact .returned working branch nofun
      | success =>
        rw [branch] at worked
        cases RepeatTimer.steps_of_step (run_singleton_some.mp worked) with
        | work_returns working => exact .returned working branch nofun

theorem sound_step {s t : State} {label : Label} (sound : RepeatTimer.Sound s.timer) (one : step s label = some t) :
    RepeatTimer.Sound t.timer := by
  cases label with
  | timer label =>
    cases steps_of_step one with
    | timer _ stepped => exact RepeatTimer.sound_step sound stepped
  | periodic_work tick =>
    obtain ⟨timer,worked,rfl⟩ := Option.map_eq_some_iff.mp one
    exact run_invariant RepeatTimer.Sound (fun _ _ _ sound one => RepeatTimer.sound_step sound one) worked sound

theorem run_sound {labels : List Label} {s : State} (ran : run step start labels = some s) : RepeatTimer.Sound s.timer :=
  run_invariant (fun s => RepeatTimer.Sound s.timer) (fun _ _ _ sound one => sound_step sound one) ran
    RepeatTimer.sound_start

/-! ## Reporting until stopped -/

/-- Ticks of the run that threw did so after the flag was set. -/
def ThrewOnlyStopped (labels : List Label) : Prop :=
  ∀ before tick t, before ++ [.periodic_work tick] <+: labels → run step start before = some t →
    periodic_work tick = none → t.timer.stop = true

private theorem run_before {before labels : List Label} {s : State} (ran : run step start labels = some s)
    (start' : before <+: labels) : ∃ t, run step start before = some t := by
  obtain ⟨rest,rfl⟩ := start'
  obtain ⟨t,ranBefore,_⟩ := run_append_some.mp ran
  exact ⟨t,ranBefore⟩

/-- A timer that was left by an exception was left so by a tick of the run. -/
theorem stopped_of_threw {labels : List Label} (only : ThrewOnlyStopped labels) {before : List Label} {t : State}
    (ran : run step start before = some t) : before <+: labels → t.timer.phase = .threw → t.timer.stop = true := by
  refine run_induction (fun before t => before <+: labels → t.timer.phase = .threw → t.timer.stop = true) ?_ ?_ ran
  · intro _ threw
    cases threw
  · intro inputs m label t before ih one within threw
    have earlier : inputs <+: labels := (List.prefix_append inputs [label]).trans within
    cases steps_of_step one with
    | timer other stepped =>
      rcases RepeatTimer.threw_step stepped threw with ⟨throws,_⟩ | ⟨before,kept⟩
      · exact absurd throws other
      · exact kept (ih earlier before)
    | threw _ branch => exact only inputs _ m within before branch
    | rejected _ _ => cases threw
    | returned _ _ _ => cases threw

/-- Over a whole run, a wait is armed after each tick until the flag is set,
    exactly if no tick throws before. -/
theorem keeps_ticking_iff {labels : List Label} {s : State} (ran : run step start labels = some s) :
    (∀ before t, before <+: labels → run step start before = some t → RepeatTimer.KeepsTicking t.timer) ↔
      ThrewOnlyStopped labels := by
  constructor
  · intro keeps before tick t within ranBefore branch
    obtain ⟨m,ranTick⟩ := run_before ran within
    obtain ⟨t',same,one⟩ := run_snoc_some.mp ranTick
    cases ranBefore.symm.trans same
    have stopped := (RepeatTimer.keepsTicking_iff (run_sound ranTick)).mp (keeps _ m within ranTick)
    cases steps_of_step one with
    | threw _ _ => exact stopped rfl
    | rejected _ taken => rw [branch] at taken; cases taken
    | returned _ taken _ => rw [branch] at taken; cases taken
  · intro only before t within ranBefore
    exact (RepeatTimer.keepsTicking_iff (run_sound ranBefore)).mpr (stopped_of_threw only ranBefore within)

/-- A tick that the server answers, and the next expiry. -/
def answered : Tick := ⟨true,true,some .READ_SUCCESS,(7,7,7)⟩
def answeredOnce : List Label :=
  [.timer .expires,.periodic_work answered,.timer .check,.timer .async_wait,.timer .expires]

theorem keeps_ticking_answered : ∃ s, run step start answeredOnce = some s ∧
    ∀ before t, before <+: answeredOnce → run step start before = some t → RepeatTimer.KeepsTicking t.timer := by
  refine ⟨_,rfl,(keeps_ticking_iff rfl).mpr ?_⟩
  intro before tick t within _ branch
  have member : Label.periodic_work tick ∈ answeredOnce := within.subset (by simp)
  have same : tick = answered := by simpa [answeredOnce] using member
  have returns : periodic_work answered ≠ none := by decide
  rw [same] at branch
  exact absurd branch returns

/-- The server cannot be reached in the first tick: no tick follows it. -/
theorem failed_tick_ends_client : ¬ ∀ (labels : List Label) (s : State),
    run step start labels = some s → RepeatTimer.KeepsTicking s.timer := by
  intro always
  have armed := always [.timer .expires,.periodic_work ⟨false,false,none,(0,0,0)⟩] _ rfl rfl ⟨by decide,by decide,by decide⟩
  revert armed
  decide

/-! ## Agreement with the server -/

/-- The client's branches are those of the replies, and a rejected line is its
    last. -/
structure Agrees (ticks : List Tick) : Prop where
  failure : ∀ tick ∈ ticks, periodic_work tick = some .failure ↔ tick.sent = some .READ_FAILURE
  not_authorized : ∀ tick ∈ ticks, periodic_work tick = some .not_authorized ↔ tick.sent = some .NOT_AUTHORIZED
  last : ∀ before tick after, ticks = before ++ tick :: after → tick.sent = some .NOT_AUTHORIZED → after = []

private theorem difference_ne_zero {a b : Byte} (different : a ≠ b) : (a.toNat - b.toNat : Int) ≠ 0 := by
  intro zero
  exact different (UInt8.toNat_inj.mp (by omega))

/-- An array compares equal to a literal of one byte if that byte and a NUL come
    first in it. -/
private theorem strcmp_single (first second third : Byte) {byte : Byte} (nonzero : byte ≠ 0) :
    strcmp [first,second,third] [byte,0] = some 0 ↔ first = byte ∧ second = 0 := by
  by_cases same : first = byte
  · subst same
    by_cases ends : second = 0
    · simp [strcmp,nonzero,ends]
    · have further := difference_ne_zero ends
      simp only [UInt8.toNat_zero,Int.cast_ofNat_Int] at further
      simpa [strcmp,nonzero,ends] using further
  · have other := difference_ne_zero same
    simp [strcmp,same,other]

/-- The branch of a tick: one byte of the reply is read, and what follows it in
    the array decides with it. -/
theorem periodic_work_eq (tick : Tick) : periodic_work tick = tick.sent.map fun
    | .READ_SUCCESS => .success
    | .READ_FAILURE => if tick.reply.2.1 = 0 then .failure else .success
    | .NOT_AUTHORIZED => if tick.reply.2.1 = 0 then .not_authorized else .success := by
  obtain ⟨connected,written,answer,first,second,third⟩ := tick
  have one : literal "1" = [49,0] := by decide
  have two : literal "2" = [50,0] := by decide
  have wires : Reply.wire .READ_SUCCESS = [48] ∧ Reply.wire .READ_FAILURE = [49] ∧ Reply.wire .NOT_AUTHORIZED = [50] := by
    decide
  cases connected with
  | false => rfl
  | true =>
    cases written with
    | false => rfl
    | true =>
      cases answer with
      | none => rfl
      | some answer =>
        cases answer <;>
          simp [periodic_work,Tick.sent,read,wires,one,two,strcmp_single _ _ _ (by decide : (49 : Byte) ≠ 0),
            strcmp_single _ _ _ (by decide : (50 : Byte) ≠ 0)]

/-- A tick that got a reply other than success has a NUL behind the byte it read. -/
def Terminated (tick : Tick) : Prop := ∀ reply, tick.sent = some reply → reply = .READ_SUCCESS ∨ tick.reply.2.1 = 0

theorem branches_iff (tick : Tick) :
    ((periodic_work tick = some .failure ↔ tick.sent = some .READ_FAILURE) ∧
      (periodic_work tick = some .not_authorized ↔ tick.sent = some .NOT_AUTHORIZED)) ↔ Terminated tick := by
  unfold Terminated
  rw [periodic_work_eq]
  cases tick.sent with
  | none => simp
  | some answer => by_cases zero : tick.reply.2.1 = 0 <;> cases answer <;> simp [zero]

/-- The not-authorized branch is the last one: the flag it sets is seen before the
    next wait would be armed. -/
theorem rejected_is_last {labels : List Label} {s : State} (ran : run step start labels = some s) :
    ∀ before tick after, s.ticks = before ++ tick :: after → periodic_work tick = some .not_authorized →
      after = [] ∧ RepeatTimer.Over s.timer := by
  refine run_induction (fun _ s => ∀ before tick after, s.ticks = before ++ tick :: after →
    periodic_work tick = some .not_authorized → after = [] ∧ RepeatTimer.Over s.timer) ?_ ?_ ran
  · intro before tick after split
    simp [start] at split
  · intro inputs m label t ranBefore ih one before tick after split branch
    have sound := run_sound ranBefore
    -- A timer at work is not at its end, so no tick before was rejected.
    have only : m.timer.phase = .working → ∀ last, m.ticks ++ [last] = before ++ tick :: after → after = [] ∧ tick = last := by
      intro working last longer
      rcases snoc_split longer with ⟨none,_,same⟩ | ⟨rest,_,earlier⟩
      · exact ⟨none,same⟩
      · exact absurd working (ih before tick rest earlier branch).2.2.2.1
    cases steps_of_step one with
    | timer _ stepped =>
      obtain ⟨final,spent⟩ := ih before tick after split branch
      exact ⟨final,RepeatTimer.over_step spent stepped⟩
    | threw working taken =>
      obtain ⟨_,rfl⟩ := only working _ split
      rw [branch] at taken
      cases taken
    | rejected working _ =>
      refine ⟨(only working _ split).1,rfl,?_,nofun,nofun⟩
      unfold RepeatTimer.Sound at sound
      rw [working] at sound
      exact sound
    | returned working taken other =>
      obtain ⟨_,rfl⟩ := only working _ split
      rw [branch] at taken
      cases taken
      exact absurd rfl other

/-- In every run of the client, whatever the server replies and whatever was in
    the array before: the client agrees with the server exactly if the byte behind
    every reply other than success happened to be a NUL. -/
theorem client_agrees_iff {labels : List Label} {s : State} (ran : run step start labels = some s) :
    Agrees s.ticks ↔ ∀ tick ∈ s.ticks, Terminated tick := by
  constructor
  · intro agrees tick member
    exact (branches_iff tick).mp ⟨agrees.failure tick member,agrees.not_authorized tick member⟩
  · intro terminated
    refine ⟨fun tick member => ((branches_iff tick).mpr (terminated tick member)).1,
      fun tick member => ((branches_iff tick).mpr (terminated tick member)).2,?_⟩
    intro before tick after split sent
    have rejected := ((branches_iff tick).mpr (terminated tick (by simp [split]))).2.mpr sent
    exact (rejected_is_last ran before tick after split rejected).1

/-- A line that the server rejects, read into an array of zeros. -/
def rejectedOnce : List Label :=
  [.timer .expires,.periodic_work ⟨true,true,some .NOT_AUTHORIZED,(0,0,0)⟩,.timer .check,.timer .run_returns]

theorem client_agrees_rejected : ∃ s, run step start rejectedOnce = some s ∧ Agrees s.ticks := by
  have ran : run step start rejectedOnce =
      some ⟨⟨0,true,.returned⟩,[⟨true,true,some .NOT_AUTHORIZED,(0,0,0)⟩]⟩ := rfl
  refine ⟨_,ran,(client_agrees_iff ran).mpr ?_⟩
  intro tick member
  cases List.mem_singleton.mp member
  exact fun _ _ => .inr rfl

/-- The same reply read in front of another byte is taken for a success, and the
    client sends the next line. -/
theorem rejected_taken_for_success : ¬ ∀ (labels : List Label) (s : State),
    run step start labels = some s → Agrees s.ticks := by
  intro always
  have agrees := always [.timer .expires,.periodic_work ⟨true,true,some .NOT_AUTHORIZED,(7,7,7)⟩,.timer .check,
    .timer .async_wait,.timer .expires,.periodic_work answered] _ rfl
  have taken := (agrees.not_authorized ⟨true,true,some .NOT_AUTHORIZED,(7,7,7)⟩ (by decide)).mpr rfl
  revert taken
  decide

end SysInfo.Client
