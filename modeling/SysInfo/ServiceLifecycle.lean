import SysInfo.Transition

/-!
# The life of the service object

The operations of `server_service` in the order in which a caller makes them, up
to the exit from the scope that holds the object: by leaving it, or because an
operation throws. The destructor of a `std::thread` that is still joinable calls
`std::terminate`, also when another thread object takes its place.
-/

namespace SysInfo.ServiceLifecycle
open SysInfo.Transition

inductive Phase where
  | alive
  | destroyed
  | terminated
  deriving DecidableEq

structure State where
  /-- No thread object, or one that is joinable or not. -/
  service_thread : Option Bool
  server : Bool
  /-- `io_service.stop()` was called, without which `service_work` keeps `run()`
      from returning. -/
  stopped : Bool
  phase : Phase
  deriving DecidableEq

/-- The constructor. -/
def server_service : State := ⟨none,false,false,.alive⟩

inductive Op where
  | start
  | start_server (binds : Bool)
  | stop
  | finish_work_before_quiting
  | leave
  deriving DecidableEq

/-- The members are destroyed from the last to the first: `server`, then
    `service_thread`. -/
def destroy (s : State) : State :=
  if s.service_thread = some true then { s with server := false, phase := .terminated }
  else { s with service_thread := none, server := false, phase := .destroyed }

/-- `none` where the operation does not return. -/
def step (s : State) (op : Op) : Option State :=
  if s.phase = .alive then
    match op with
    | .start =>
      if s.service_thread = some true then some { s with phase := .terminated } else some { s with service_thread := some true }
    -- The constructor of the acceptor throws where the port cannot be bound.
    | .start_server binds => if binds then some { s with server := true } else some (destroy s)
    | .stop => some { s with stopped := true }
    | .finish_work_before_quiting =>
      match s.service_thread with
      | some true => if s.stopped then some { s with service_thread := some false } else none
      -- `join` throws `std::system_error`.
      | some false => some (destroy s)
      | none => none
    | .leave => some (destroy s)
  else none

/-- What a step does, guards included. -/
inductive Steps (s : State) : Op → State → Prop where
  | replaces : s.service_thread = some true → Steps s .start { s with phase := .terminated }
  | starts : s.service_thread ≠ some true → Steps s .start { s with service_thread := some true }
  | binds : Steps s (.start_server true) { s with server := true }
  | throws : Steps s (.start_server false) (destroy s)
  | stop : Steps s .stop { s with stopped := true }
  | joins : s.service_thread = some true → s.stopped = true →
      Steps s .finish_work_before_quiting { s with service_thread := some false }
  | joinThrows : s.service_thread = some false → Steps s .finish_work_before_quiting (destroy s)
  | leave : Steps s .leave (destroy s)

theorem steps_of_step {s t : State} {op : Op} (one : step s op = some t) : s.phase = .alive ∧ Steps s op t := by
  unfold step at one
  split at one
  · rename_i alive
    refine ⟨alive,?_⟩
    cases op with
    | start =>
      simp only at one
      split at one
      · rename_i joinable
        cases Option.some.inj one
        exact .replaces joinable
      · rename_i joinable
        cases Option.some.inj one
        exact .starts joinable
    | start_server binds =>
      cases binds with
      | true => cases Option.some.inj one; exact .binds
      | false => cases Option.some.inj one; exact .throws
    | stop => cases Option.some.inj one; exact .stop
    | finish_work_before_quiting =>
      simp only at one
      split at one
      · rename_i joinable
        split at one
        · rename_i stopped
          cases Option.some.inj one
          exact .joins joinable stopped
        · cases one
      · rename_i joined
        cases Option.some.inj one
        exact .joinThrows joined
      · cases one
    | leave => cases Option.some.inj one; exact .leave
  · cases one

/-! ## Threads that are not joined -/

/-- The operations that end the life of the thread object. -/
def Ends : Op → Prop
  | .start => True
  | .start_server binds => binds = false
  | .leave => True
  | .stop => False
  | .finish_work_before_quiting => False

/-- Some start is not followed by a join. -/
def Unjoined (ops : List Op) : Prop :=
  ∃ before after, ops = before ++ .start :: after ∧ .finish_work_before_quiting ∉ after

/-- Every start is followed by a join before the thread object is replaced or
    destroyed. -/
def Joined (ops : List Op) : Prop :=
  ∀ before between ending after, ops = before ++ .start :: (between ++ ending :: after) → Ends ending →
    .finish_work_before_quiting ∈ between

theorem unjoined_snoc (ops : List Op) (op : Op) :
    Unjoined (ops ++ [op]) ↔ op = .start ∨ (Unjoined ops ∧ op ≠ .finish_work_before_quiting) := by
  constructor
  · rintro ⟨before,after,split,missing⟩
    rcases snoc_split split with ⟨_,_,same⟩ | ⟨rest,rfl,earlier⟩
    · exact .inl same.symm
    · simp only [List.mem_append,List.mem_singleton,not_or] at missing
      exact .inr ⟨⟨before,rest,earlier,missing.1⟩,fun same => missing.2 same.symm⟩
  · rintro (rfl | ⟨⟨before,after,rfl,missing⟩,other⟩)
    · exact ⟨ops,[],rfl,by simp⟩
    · exact ⟨before,after ++ [op],by simp,by simp [missing,Ne.symm other]⟩

theorem joined_snoc (ops : List Op) (op : Op) : Joined (ops ++ [op]) ↔ Joined ops ∧ (Ends op → ¬ Unjoined ops) := by
  constructor
  · intro joined
    refine ⟨?_,?_⟩
    · rintro before between ending after rfl ends
      exact joined before between ending (after ++ [op]) (by simp) ends
    · rintro ends ⟨before,after,rfl,missing⟩
      exact missing (joined before after op [] (by simp) ends)
  · rintro ⟨joined,closed⟩ before between ending after split ends
    have regroup : before ++ .start :: (between ++ ending :: after) = (before ++ .start :: between) ++ ending :: after := by simp
    rw [regroup] at split
    rcases snoc_split split with ⟨_,earlier,rfl⟩ | ⟨rest,rfl,earlier⟩
    · by_contra missing
      exact closed ends ⟨before,between,earlier.symm,missing⟩
    · exact joined before between ending rest (by simp [earlier]) ends

/-! ## Exits -/

/-- The thread object is joinable as long as its start was not followed by a join,
    and the process was terminated exactly if it was still so at its end. -/
structure Tracks (ops : List Op) (s : State) : Prop where
  joinable : s.phase = .alive → (s.service_thread = some true ↔ Unjoined ops)
  terminated : s.phase = .terminated ↔ ¬ Joined ops

theorem tracks_nil : Tracks [] server_service := by
  refine ⟨fun _ => ⟨nofun,?_⟩,⟨nofun,?_⟩⟩
  · rintro ⟨before,after,split,_⟩
    simp at split
  · intro unjoined
    refine absurd ?_ unjoined
    intro before between ending after split
    simp at split

theorem Tracks.joined {ops : List Op} {s : State} (tracks : Tracks ops s) (alive : s.phase = .alive) : Joined ops := by
  by_contra unjoined
  rw [tracks.terminated.mpr unjoined] at alive
  cases alive

/-- The object is destroyed. -/
theorem tracks_destroy {ops : List Op} {s : State} {op : Op} (tracks : Tracks ops s) (alive : s.phase = .alive)
    (ends : s.service_thread = some true → Ends op) : Tracks (ops ++ [op]) (destroy s) := by
  by_cases joinable : s.service_thread = some true
  · have phase : (destroy s).phase = .terminated := by simp [destroy,joinable]
    refine ⟨fun still => ?_,fun _ => ?_,fun _ => phase⟩
    · rw [phase] at still
      cases still
    · rw [joined_snoc]
      exact fun closed => closed.2 (ends joinable) ((tracks.joinable alive).mp joinable)
  · have phase : (destroy s).phase = .destroyed := by simp [destroy,joinable]
    refine ⟨fun still => ?_,fun gone => ?_,fun unjoined => ?_⟩
    · rw [phase] at still
      cases still
    · rw [phase] at gone
      cases gone
    · refine absurd ((joined_snoc ops op).mpr ⟨tracks.joined alive,fun _ missing => ?_⟩) unjoined
      exact joinable ((tracks.joinable alive).mpr missing)

/-- The object lives on. -/
theorem tracks_lives {ops : List Op} {s t : State} {op : Op} (tracks : Tracks ops s) (alive : s.phase = .alive)
    (alive' : t.phase = .alive) (closed : Ends op → s.service_thread ≠ some true)
    (joinable : t.service_thread = some true ↔ op = .start ∨ (s.service_thread = some true ∧ op ≠ .finish_work_before_quiting)) :
    Tracks (ops ++ [op]) t := by
  refine ⟨fun _ => ?_,fun gone => ?_,fun unjoined => ?_⟩
  · rw [joinable,unjoined_snoc,tracks.joinable alive]
  · rw [alive'] at gone
    cases gone
  · refine absurd ((joined_snoc ops op).mpr ⟨tracks.joined alive,fun ends missing => ?_⟩) unjoined
    exact closed ends ((tracks.joinable alive).mpr missing)

theorem tracks_step {ops : List Op} {s t : State} {op : Op} (tracks : Tracks ops s) (one : step s op = some t) :
    Tracks (ops ++ [op]) t := by
  obtain ⟨alive,steps⟩ := steps_of_step one
  cases steps with
  | replaces joinable =>
    refine ⟨nofun,fun _ => ?_,fun _ => rfl⟩
    rw [joined_snoc]
    exact fun closed => closed.2 trivial ((tracks.joinable alive).mp joinable)
  | starts other => exact tracks_lives tracks alive alive (fun _ => other) (by simp)
  | binds => exact tracks_lives tracks alive alive (fun ends => by cases ends) (by simp)
  | throws => exact tracks_destroy tracks alive fun _ => rfl
  | stop => exact tracks_lives tracks alive alive (fun never => never.elim) (by simp)
  | joins _ _ => exact tracks_lives tracks alive alive (fun never => never.elim) (by simp)
  | joinThrows joined =>
    refine tracks_destroy tracks alive fun joinable => ?_
    rw [joined] at joinable
    cases joinable
  | leave => exact tracks_destroy tracks alive fun _ => trivial

/-- No exit meets a joinable thread exactly if every start is followed by a join
    before the next start, before a server that cannot bind, and before the end. -/
theorem exits_clean_iff {ops : List Op} {s : State} (ran : run step server_service ops = some s) :
    s.phase ≠ .terminated ↔ Joined ops := by
  have tracks : Tracks ops s := run_induction Tracks tracks_nil (fun _ _ _ _ _ tracks one => tracks_step tracks one) ran
  rw [ne_eq,tracks.terminated,not_not]

/-- What `main` does with the object. -/
def main_operations (binds : Bool) : List Op :=
  [.start,.start_server binds] ++ if binds then [.stop,.finish_work_before_quiting,.leave] else []

/-- `main` on a free port. -/
theorem exits_clean_main : ∃ s, run step server_service (main_operations true) = some s ∧ s.phase = .destroyed ∧
    Joined (main_operations true) := by
  have ran : run step server_service (main_operations true) = some ⟨none,false,true,.destroyed⟩ := rfl
  exact ⟨_,ran,rfl,(exits_clean_iff ran).mp (by simp)⟩

/-- `main` on a port that is taken: the exception leaves `start_server`, and the
    destructor of the running thread ends the process on the way to the handler. -/
theorem taken_port_terminates : ¬ ∀ (ops : List Op) (s : State), run step server_service (.start :: ops) = some s →
    s.phase ≠ .terminated := by
  intro always
  have ran : run step server_service (.start :: [.start_server false]) = some ⟨some true,false,false,.terminated⟩ := rfl
  exact always _ _ ran rfl

end SysInfo.ServiceLifecycle
