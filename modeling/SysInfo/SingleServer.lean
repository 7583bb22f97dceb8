import Mathlib.Algebra.BigOperators.Intervals
import Mathlib.Algebra.Order.Monoid.Defs
import Mathlib.Algebra.Order.Monoid.Unbundled.MinMax
import Mathlib.Order.Bounds.Basic

/-!
# Jobs served one at a time

Jobs are released at given times and served in their order by one server, each as
soon as it is released and the one before is done. When a job begins is given by
a recursion, and in closed form as the greatest of the times at which an unbroken
row of jobs up to it would end that began with the release of one of them.
-/

namespace SysInfo.SingleServer
universe u

variable {Time : Type u} [AddCommMonoid Time] (release duration : ℕ → Time)

/-- The times that bound the begin of a job from below. -/
def rows (n : ℕ) : Set Time := { t | ∃ k ≤ n, t = release k + ∑ j ∈ Finset.Ico k n, duration j }

variable {release duration}

theorem mem_rows_succ {n : ℕ} {t : Time} :
    t ∈ rows release duration (n + 1) ↔ t = release (n + 1) ∨ ∃ before ∈ rows release duration n, t = before + duration n := by
  constructor
  · rintro ⟨k,le,rfl⟩
    by_cases last : k = n + 1
    · subst last
      exact .inl (by simp)
    · have le' : k ≤ n := by omega
      refine .inr ⟨release k + ∑ j ∈ Finset.Ico k n, duration j,⟨k,le',rfl⟩,?_⟩
      rw [Finset.sum_Ico_succ_top le',add_assoc]
  · rintro (rfl | ⟨before,⟨k,le,rfl⟩,rfl⟩)
    · exact ⟨n + 1,le_rfl,by simp⟩
    · refine ⟨k,by omega,?_⟩
      rw [Finset.sum_Ico_succ_top le,add_assoc]

variable [LinearOrder Time] (release duration)

/-- When a job begins. -/
def begins : ℕ → Time
  | 0 => release 0
  | n + 1 => max (release (n + 1)) (begins n + duration n)

variable {release duration}

theorem release_le_begins (n : ℕ) : release n ≤ begins release duration n := by
  cases n with
  | zero => exact le_rfl
  | succ n => exact le_max_left _ _

/-- A job ends before the next one begins. -/
theorem begins_add_le_succ (n : ℕ) : begins release duration n + duration n ≤ begins release duration (n + 1) :=
  le_max_right _ _

/-- A server that keeps up begins every job with its release. -/
theorem begins_eq_release {n : ℕ} (keepsUp : ∀ j < n, release j + duration j ≤ release (j + 1)) :
    begins release duration n = release n := by
  induction n with
  | zero => rfl
  | succ n ih =>
    have before := ih fun j lt => keepsUp j (by omega)
    rw [begins,before]
    exact max_eq_left (keepsUp n (by omega))

/-- A job that begins late begins as the one before ends. -/
theorem begins_of_late {n : ℕ} (late : release (n + 1) < begins release duration (n + 1)) :
    begins release duration (n + 1) = begins release duration n + duration n := by
  rcases max_choice (release (n + 1)) (begins release duration n + duration n) with prompt | busy
  · exact absurd prompt (ne_of_gt late)
  · exact busy

/-- Only the jobs before count. -/
theorem begins_congr {other : ℕ → Time} {n : ℕ} (same : ∀ j < n, duration j = other j) :
    begins release duration n = begins release other n := by
  induction n with
  | zero => rfl
  | succ n ih =>
    rw [begins,begins,ih fun j lt => same j (by omega),same n (by omega)]

variable [IsOrderedAddMonoid Time]

/-- A server that is behind catches up: while no job takes longer than the time between
    two releases, only the work of the jobs since counts. -/
theorem begins_catch_up {most : Time} {n k : ℕ} (room : ∀ j, n ≤ j → j < n + k → release j + most ≤ release (j + 1))
    (short : ∀ j, n ≤ j → j < n + k → duration j ≤ most) :
    begins release duration (n + k) ≤ max (release (n + k)) (begins release duration n + k • most) := by
  induction k with
  | zero => simp
  | succ k ih =>
    have before := ih (fun j le lt => room j le (by omega)) fun j le lt => short j le (by omega)
    have last := short (n + k) (by omega) (by omega)
    show max (release (n + k + 1)) (begins release duration (n + k) + duration (n + k)) ≤ _
    apply max_le
    · exact le_max_left _ _
    · calc begins release duration (n + k) + duration (n + k)
          ≤ max (release (n + k)) (begins release duration n + k • most) + most := add_le_add before last
        _ = max (release (n + k) + most) (begins release duration n + k • most + most) := (max_add_add_right _ _ _).symm
        _ ≤ max (release (n + k + 1)) (begins release duration n + (k + 1) • most) := by
          apply max_le_max
          · exact room (n + k) (by omega) (by omega)
          · rw [succ_nsmul,add_assoc]

/-- The closed form. -/
theorem begins_isGreatest (n : ℕ) : IsGreatest (rows release duration n) (begins release duration n) := by
  induction n with
  | zero =>
    refine ⟨⟨0,le_rfl,by simp [begins]⟩,?_⟩
    rintro t ⟨k,le,rfl⟩
    obtain rfl : k = 0 := by omega
    simp [begins]
  | succ n ih =>
    refine ⟨mem_rows_succ.mpr ?_,?_⟩
    · rcases le_total (begins release duration n + duration n) (release (n + 1)) with idle | busy
      · exact .inl (max_eq_left idle)
      · exact .inr ⟨_,ih.1,max_eq_right busy⟩
    · rintro t member
      rcases mem_rows_succ.mp member with rfl | ⟨before,row,rfl⟩
      · exact le_max_left _ _
      · exact (add_le_add_left (ih.2 row) (duration n)).trans (le_max_right _ _)

end SysInfo.SingleServer
