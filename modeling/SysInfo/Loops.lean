/-!
# Loops that test after their body

`do body while (again)`: when it ends and after how many iterations, and its
evaluation with bounded fuel.
-/

namespace SysInfo.Loops
universe u

variable {State : Type u} (body : State → State) (again : State → Bool)

/-- The number of iterations and the state after them; `none` when the fuel does
    not last. -/
def doWhile : Nat → State → Option (Nat × State)
  | 0, _ => none
  | fuel + 1, s =>
    if again (body s) then (doWhile fuel (body s)).map fun ended => (ended.1 + 1,ended.2) else some (1,body s)

/-- The loop entered in `s` ends in `t`, after so many iterations. -/
inductive Ends : State → Nat → State → Prop where
  | last {s} : again (body s) = false → Ends s 1 (body s)
  | next {s iterations t} : again (body s) = true → Ends (body s) iterations t → Ends s (iterations + 1) t

variable {body again}

/-- The evaluation finds the end of the loop as soon as the fuel lasts for its
    iterations, and never another one. -/
theorem doWhile_eq_some_iff {fuel iterations : Nat} {s t : State} :
    doWhile body again fuel s = some (iterations,t) ↔ iterations ≤ fuel ∧ Ends body again s iterations t := by
  constructor
  · intro ended
    induction fuel generalizing s iterations with
    | zero => cases ended
    | succ fuel ih =>
      rw [doWhile] at ended
      split at ended
      · rename_i more
        obtain ⟨⟨before,u⟩,rest,same⟩ := Option.map_eq_some_iff.mp ended
        cases same
        obtain ⟨enough,ends⟩ := ih rest
        exact ⟨Nat.succ_le_succ enough,.next more ends⟩
      · rename_i stop
        cases Option.some.inj ended
        exact ⟨Nat.succ_le_succ (Nat.zero_le fuel),.last (Bool.eq_false_iff.mpr stop)⟩
  · rintro ⟨enough,ends⟩
    induction ends generalizing fuel with
    | last stop =>
      cases fuel with
      | zero => cases enough
      | succ fuel => simp [doWhile,stop]
    | next more _ ih =>
      cases fuel with
      | zero => cases enough
      | succ fuel => simp [doWhile,more,ih (Nat.le_of_succ_le_succ enough)]

/-- A loop whose body keeps an invariant that makes the test succeed runs forever. -/
theorem not_ends_of_invariant {Inv : State → Prop} (keep : ∀ s, Inv s → Inv (body s) ∧ again (body s) = true)
    {s : State} (start : Inv s) (iterations : Nat) (t : State) : ¬ Ends body again s iterations t := by
  intro ends
  induction ends with
  | last stop =>
    rw [(keep _ start).2] at stop
    cases stop
  | next _ _ ih => exact ih (keep _ start).1

end SysInfo.Loops
