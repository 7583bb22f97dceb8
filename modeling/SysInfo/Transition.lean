import Mathlib.Data.List.Induction

/-!
# Runs of guarded deterministic steps

A system is a partial function from a state and an input to the next state:
`none` where the input is not enabled. A run is a list of inputs, every one of
them enabled in the state the previous ones led to. Nondeterminism lies in the
choice of the inputs, so a statement over all runs covers every interleaving.
-/

namespace SysInfo.Transition
universe u v w x

variable {State : Type u} {Input : Type v} (step : State → Input → Option State)

/-- The state after the inputs, when every one of them is enabled in turn. -/
def run (s : State) : List Input → Option State
  | [] => some s
  | i :: rest => (step s i).bind fun t => run t rest

@[simp] theorem run_nil (s : State) : run step s [] = some s := rfl

theorem run_cons (s : State) (i : Input) (rest : List Input) :
    run step s (i :: rest) = (step s i).bind fun t => run step t rest := rfl

theorem run_append (s : State) (first second : List Input) :
    run step s (first ++ second) = (run step s first).bind fun t => run step t second := by
  induction first generalizing s with
  | nil => rfl
  | cons i rest ih =>
    simp only [List.cons_append,run_cons]
    cases step s i with
    | none => rfl
    | some t => exact ih t

variable {step}

theorem run_cons_some {s t : State} {i : Input} {rest : List Input} :
    run step s (i :: rest) = some t ↔ ∃ m, step s i = some m ∧ run step m rest = some t := by
  rw [run_cons,Option.bind_eq_some_iff]

theorem run_singleton_some {s t : State} {i : Input} : run step s [i] = some t ↔ step s i = some t := by
  rw [run_cons_some]
  constructor
  · rintro ⟨m,one,none⟩
    cases Option.some.inj none
    exact one
  · intro one
    exact ⟨t,one,rfl⟩

theorem run_append_some {s t : State} {first second : List Input} :
    run step s (first ++ second) = some t ↔ ∃ m, run step s first = some m ∧ run step m second = some t := by
  rw [run_append,Option.bind_eq_some_iff]

/-- A nonempty run is a run followed by its last step. -/
theorem run_snoc_some {s t : State} {first : List Input} {i : Input} :
    run step s (first ++ [i]) = some t ↔ ∃ m, run step s first = some m ∧ step m i = some t := by
  rw [run_append_some]
  simp only [run_singleton_some]

/-- What holds at the start and is kept when a run grows by one step holds after
    every run. The property may speak about the inputs consumed so far. -/
theorem run_induction (Holds : List Input → State → Prop) {s : State} (start : Holds [] s)
    (keep : ∀ inputs m i t, run step s inputs = some m → Holds inputs m → step m i = some t → Holds (inputs ++ [i]) t) :
    ∀ {inputs : List Input} {t : State}, run step s inputs = some t → Holds inputs t := by
  intro inputs
  induction inputs using List.reverseRecOn with
  | nil =>
    intro t ran
    cases Option.some.inj ran
    exact start
  | append_singleton inputs i ih =>
    intro t ran
    obtain ⟨m,before,one⟩ := run_snoc_some.mp ran
    exact keep inputs m i t before (ih before) one

/-- An invariant of every step is an invariant of every run. -/
theorem run_invariant (Inv : State → Prop) (keep : ∀ s i t, Inv s → step s i = some t → Inv t)
    {s t : State} {inputs : List Input} (ran : run step s inputs = some t) (start : Inv s) : Inv t :=
  run_induction (fun _ t => Inv t) start (fun _ m i t _ inv one => keep m i t inv one) ran

theorem run_constant {Value : Type w} (value : State → Value)
    (keep : ∀ s i t, step s i = some t → value t = value s)
    {s t : State} {inputs : List Input} (ran : run step s inputs = some t) : value t = value s :=
  run_invariant (fun m => value m = value s) (fun m i t same one => (keep m i t one).trans same) ran rfl

/-- What the inputs of one kind keep is kept by a run of such inputs. -/
theorem run_invariant_on (Allowed : Input → Prop) (Inv : State → Prop)
    (keep : ∀ s i t, Allowed i → Inv s → step s i = some t → Inv t)
    {s t : State} {inputs : List Input} (all : ∀ i ∈ inputs, Allowed i) (ran : run step s inputs = some t) (start : Inv s) :
    Inv t := by
  induction inputs generalizing s with
  | nil =>
    cases Option.some.inj ran
    exact start
  | cons i rest ih =>
    obtain ⟨m,one,later⟩ := run_cons_some.mp ran
    have inv := keep s i m (all i List.mem_cons_self) start one
    exact ih (fun j member => all j (List.mem_cons_of_mem i member)) later inv

/-! ## What can be reached -/

section
variable {Allowed : Input → Prop} {Goal Further : State → Prop} {s t : State}

variable (step) in
/-- Some run of allowed inputs ends in a goal. -/
def Reaches (Allowed : Input → Prop) (Goal : State → Prop) (s : State) : Prop :=
  ∃ inputs t, run step s inputs = some t ∧ (∀ i ∈ inputs, Allowed i) ∧ Goal t

theorem Reaches.here (goal : Goal s) : Reaches step Allowed Goal s := ⟨[],s,rfl,by simp,goal⟩

theorem Reaches.on (reaches : Reaches step Allowed Goal s)
    (goes : ∀ inputs t, run step s inputs = some t → (∀ i ∈ inputs, Allowed i) → Goal t → Reaches step Allowed Further t) :
    Reaches step Allowed Further s := by
  obtain ⟨inputs,t,ran,allowed,goal⟩ := reaches
  obtain ⟨more,u,later,allowed',further⟩ := goes inputs t ran allowed goal
  refine ⟨inputs ++ more,u,run_append_some.mpr ⟨t,ran,later⟩,?_,further⟩
  intro i member
  exact (List.mem_append.mp member).elim (allowed i) (allowed' i)

theorem Reaches.before {i : Input} (reaches : Reaches step Allowed Goal t) (one : step s i = some t) (allowed : Allowed i) :
    Reaches step Allowed Goal s := by
  obtain ⟨inputs,u,ran,all,goal⟩ := reaches
  exact ⟨i :: inputs,u,run_cons_some.mpr ⟨t,one,ran⟩,List.forall_mem_cons.mpr ⟨allowed,all⟩,goal⟩

end

/-- A history that grew by one entry is split at an old entry or at the new one. -/
theorem snoc_split {Entry : Type w} {history before after : List Entry} {last entry : Entry}
    (split : history ++ [last] = before ++ entry :: after) :
    (after = [] ∧ before = history ∧ entry = last) ∨ ∃ rest, after = rest ++ [last] ∧ history = before ++ entry :: rest := by
  cases after using List.reverseRecOn with
  | nil => exact .inl ⟨rfl,(List.append_inj_left' split rfl).symm,(List.cons.inj (List.append_inj_right' split rfl)).1.symm⟩
  | append_singleton rest other _ =>
    rw [← List.cons_append,← List.append_assoc] at split
    have same := (List.cons.inj (List.append_inj_right' split rfl)).1
    exact .inr ⟨rest,by rw [same],List.append_inj_left' split rfl⟩

/-! ## History variables -/

section
variable {Note : Type w} (record : State → Input → Note → Note)

variable (step) in
/-- What a run leaves in a variable that no step looks at: `record` is what the variable
    holds after a step, given the state before it. -/
def recorded (s : State) (note : Note) : List Input → Note
  | [] => note
  | i :: rest => ((step s i).map fun t => recorded t (record s i note) rest).getD note

variable {record}

theorem recorded_invariant (Holds : State → Note → Prop)
    (keep : ∀ s i t note, Holds s note → step s i = some t → Holds t (record s i note))
    {s t : State} {note : Note} {inputs : List Input} (ran : run step s inputs = some t) (start : Holds s note) :
    Holds t (recorded step record s note inputs) := by
  induction inputs generalizing s note with
  | nil =>
    cases Option.some.inj ran
    exact start
  | cons i rest ih =>
    obtain ⟨m,one,later⟩ := run_cons_some.mp ran
    simp only [recorded,one,Option.map_some,Option.getD_some]
    exact ih later (keep s i m note start one)

end

/-! ## Refinement -/

section
variable {Abstract : Type w} {Command : Type x} {abstractStep : Abstract → Command → Option Abstract}

/-- A relation under which every concrete step is answered by an abstract run
    gives every concrete run an abstract one. -/
theorem run_simulation (Related : State → Abstract → Prop)
    (answered : ∀ s i t a, Related s a → step s i = some t →
      ∃ commands b, run abstractStep a commands = some b ∧ Related t b)
    {s t : State} {a : Abstract} {inputs : List Input} (start : Related s a) (ran : run step s inputs = some t) :
    ∃ commands b, run abstractStep a commands = some b ∧ Related t b := by
  refine run_induction (fun _ t => ∃ commands b, run abstractStep a commands = some b ∧ Related t b)
    ⟨[],a,rfl,start⟩ ?_ ran
  rintro _ m i t _ ⟨commands,b,before,related⟩ one
  obtain ⟨more,c,after,related'⟩ := answered m i t b related one
  exact ⟨commands ++ more,c,run_append_some.mpr ⟨b,before,after⟩,related'⟩

end
end SysInfo.Transition
