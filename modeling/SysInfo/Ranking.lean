import SysInfo.Transition

/-!
# Systems that come to their end

A measure that no step adds to and every counted step uses up, as long as the
system is live, and a counted step that is enabled until the system is done. Then
no run has more counted steps than the measure, and every run can be continued
until the system is done.
-/

namespace SysInfo.Ranking
open SysInfo.Transition
universe u v w x

structure Ranked {State : Type u} {Input : Type v} (step : State → Input → Option State) where
  Inv : State → Prop
  Live : State → Prop
  Done : State → Prop
  counts : Input → Bool
  measure : State → Nat
  keep : ∀ s i t, Inv s → step s i = some t → Inv t
  /-- A system that is not live stays so. -/
  back : ∀ s i t, Inv s → step s i = some t → Live t → Live s
  uses : ∀ s i t, Inv s → step s i = some t → Live t → (if counts i then 1 else 0) + measure t ≤ measure s
  enabled : ∀ s, Inv s → ¬ Done s → ∃ i t, counts i = true ∧ step s i = some t
  dead : ∀ s, ¬ Live s → Done s

namespace Ranked
variable {State : Type u} {Input : Type v} {step : State → Input → Option State} (ranking : Ranked step)

theorem run_inv {s t : State} {inputs : List Input} (inv : ranking.Inv s) (ran : run step s inputs = some t) :
    ranking.Inv t :=
  run_invariant ranking.Inv ranking.keep ran inv

theorem run_back {s t : State} {inputs : List Input} (inv : ranking.Inv s) (ran : run step s inputs = some t) :
    ranking.Live t → ranking.Live s := by
  refine run_induction (fun _ t => ranking.Live t → ranking.Live s) id ?_ ran
  intro _ m i t before earlier one live
  exact earlier (ranking.back m i t (ranking.run_inv inv before) one live)

/-- What the counted steps of a run leave of the measure. -/
theorem run_uses {s t : State} {inputs : List Input} (inv : ranking.Inv s) (ran : run step s inputs = some t) :
    ranking.Live t → inputs.countP ranking.counts + ranking.measure t ≤ ranking.measure s := by
  refine run_induction (fun inputs t => ranking.Live t →
    inputs.countP ranking.counts + ranking.measure t ≤ ranking.measure s) (by simp) ?_ ran
  intro inputs m i t before bound one live
  have inv' := ranking.run_inv inv before
  have used := ranking.uses m i t inv' one live
  have earlier := bound (ranking.back m i t inv' one live)
  rw [List.countP_append,List.countP_singleton]
  omega

/-- A state that no counted step leaves is at the end. -/
theorem done_of_stuck {s : State} (inv : ranking.Inv s) (stuck : ∀ i t, ranking.counts i = true → step s i ≠ some t) :
    ranking.Done s := by
  by_contra open'
  obtain ⟨i,t,counted,one⟩ := ranking.enabled s inv open'
  exact stuck i t counted one

/-- A second system comes to the end of the first one if from every good state it can
    realize a counted step of it, be it with steps of its own around it. -/
theorem realizes_done {Concrete : Type w} {Label : Type x} {concreteStep : Concrete → Label → Option Concrete}
    (abstraction : Concrete → State) (Good : Concrete → Prop) (Allowed : Label → Prop)
    (realize : ∀ c, Good c → ranking.Inv (abstraction c) → ¬ ranking.Done (abstraction c) →
      ∃ labels d inputs, run concreteStep c labels = some d ∧ (∀ label ∈ labels, Allowed label) ∧ Good d ∧
        run step (abstraction c) inputs = some (abstraction d) ∧ 0 < inputs.countP ranking.counts)
    {c : Concrete} (good : Good c) (inv : ranking.Inv (abstraction c)) :
    ∃ labels d, run concreteStep c labels = some d ∧ (∀ label ∈ labels, Allowed label) ∧ Good d ∧
      ranking.Done (abstraction d) := by
  -- The measure carries the induction: every counted step makes it smaller.
  induction bound : ranking.measure (abstraction c) using Nat.strongRecOn generalizing c with
  | _ n ih =>
    by_cases done : ranking.Done (abstraction c)
    · exact ⟨[],c,rfl,by simp,good,done⟩
    · obtain ⟨labels,m,inputs,ran,allowed,good',same,counted⟩ := realize c good inv done
      by_cases live : ranking.Live (abstraction m)
      · have used := ranking.run_uses inv same live
        obtain ⟨more,d,later,allowed',reached⟩ := ih (ranking.measure (abstraction m)) (by omega) good' (ranking.run_inv inv same) rfl
        refine ⟨labels ++ more,d,run_append_some.mpr ⟨m,ran,later⟩,?_,reached⟩
        intro label member
        exact (List.mem_append.mp member).elim (allowed label) (allowed' label)
      · exact ⟨labels,m,ran,allowed,good',ranking.dead _ live⟩

/-- Counted steps alone lead to the end. -/
theorem reaches_done {s : State} (inv : ranking.Inv s) :
    ∃ inputs t, run step s inputs = some t ∧ (∀ i ∈ inputs, ranking.counts i = true) ∧ ranking.Done t := by
  obtain ⟨inputs,t,ran,counted,_,done⟩ := ranking.realizes_done id (fun _ => True) (fun i => ranking.counts i = true)
    (by
      intro s _ inv open'
      obtain ⟨i,t,counted,one⟩ := ranking.enabled s inv open'
      refine ⟨[i],t,[i],run_singleton_some.mpr one,?_,trivial,run_singleton_some.mpr one,?_⟩
      · intro j member
        cases List.mem_singleton.mp member
        exact counted
      · rw [List.countP_singleton,if_pos counted]
        exact Nat.one_pos)
    trivial inv
  exact ⟨inputs,t,ran,counted,done⟩

/-- Where every step counts, the runs themselves are bounded. -/
theorem length_le {s t : State} {inputs : List Input} (every : ∀ i, ranking.counts i = true) (inv : ranking.Inv s)
    (ran : run step s inputs = some t) (live : ranking.Live t) : inputs.length ≤ ranking.measure s := by
  have used := ranking.run_uses inv ran live
  have all : inputs.countP ranking.counts = inputs.length := List.countP_eq_length.mpr fun i _ => every i
  omega

end Ranked
end SysInfo.Ranking
