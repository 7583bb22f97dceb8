import Mathlib.Data.List.Basic
import Mathlib.Data.List.Flatten
import Mathlib.Data.List.TakeWhile

/-!
# Lists split at a separator

How many fields `List.splitOn` returns, what the first of them is, and when two
ways of cutting one list into pieces agree.
-/

namespace SysInfo.Separated
universe u

variable {α : Type u} [DecidableEq α]

/-- One field more than there are separators. -/
theorem length_splitOn (sep : α) (text : List α) : (text.splitOn sep).length = text.count sep + 1 := by
  induction text with
  | nil => simp
  | cons c rest ih =>
    rw [List.splitOn_cons_eq_if_modifyHead]
    by_cases same : c = sep
    · simp [same,ih]
    · simp [same,ih]

/-- What precedes the first separator. -/
def firstField (sep : α) (text : List α) : List α := text.takeWhile fun c => decide (c ≠ sep)

theorem splitOn_zero (sep : α) (text : List α) : (text.splitOn sep)[0]? = some (firstField sep text) := by
  induction text with
  | nil => simp [firstField]
  | cons c rest ih =>
    rw [List.splitOn_cons_eq_if_modifyHead]
    by_cases same : c = sep
    · simp [same,firstField]
    · obtain ⟨field,fields,split⟩ := List.exists_cons_of_ne_nil (List.splitOn_ne_nil sep rest)
      rw [split] at ih
      have head : field = firstField sep rest := by simpa using ih
      simp [same,split,head,firstField]

theorem firstField_append_of_mem {sep : α} {text : List α} (present : sep ∈ text) (rest : List α) :
    firstField sep (text ++ rest) = firstField sep text := by
  induction text with
  | nil => cases present
  | cons c text ih =>
    by_cases same : c = sep
    · simp [firstField,same]
    · have later : sep ∈ text := by
        rcases List.mem_cons.mp present with head | tail
        · exact absurd head.symm same
        · exact tail
      simpa [firstField,same] using ih later

theorem firstField_append_of_not_mem {sep : α} {text : List α} (absent : sep ∉ text) (rest : List α) :
    firstField sep (text ++ rest) = text ++ firstField sep rest := by
  rw [firstField,List.takeWhile_append_of_pos]
  · rfl
  · intro c member
    exact decide_eq_true fun same => absent (same ▸ member)

theorem firstField_of_not_mem {sep : α} {text : List α} (absent : sep ∉ text) : firstField sep text = text := by
  simpa [firstField] using firstField_append_of_not_mem absent []

theorem firstField_append_cons {sep : α} {field : List α} (absent : sep ∉ field) (rest : List α) :
    firstField sep (field ++ sep :: rest) = field := by
  rw [firstField_append_of_not_mem absent]
  simp [firstField]

omit [DecidableEq α] in
/-- A start of a text that reaches the separator behind its first field has the whole
    field. -/
theorem start_behind_field {sep : α} {field rest start back : List α} (plain : sep ∉ field) (reaches : sep ∈ start)
    (same : start ++ back = field ++ sep :: rest) : ∃ shorter, start = field ++ sep :: shorter ∧ shorter ++ back = rest := by
  rcases List.append_eq_append_iff.mp same with ⟨more,longer,_⟩ | ⟨more,split,tail⟩
  · exact absurd (longer ▸ List.mem_append_left more reaches) plain
  · cases more with
    | nil =>
      rw [List.append_nil] at split
      exact absurd (split ▸ reaches) plain
    | cons first shorter =>
      obtain ⟨rfl,after⟩ := List.cons.inj tail
      exact ⟨shorter,split,after.symm⟩

/-- A text is its only field, or a field, a separator and a shorter text. -/
theorem fields_induction (sep : α) {Holds : List α → Prop} (last : ∀ field, sep ∉ field → Holds field)
    (more : ∀ field rest, sep ∉ field → Holds rest → Holds (field ++ sep :: rest)) : ∀ text, Holds text := by
  intro text
  induction length : text.length using Nat.strong_induction_on generalizing text with
  | h n ih =>
    by_cases present : sep ∈ text
    · obtain ⟨field,rest,rfl,absent⟩ := List.eq_append_cons_of_mem present
      refine more field rest absent (ih rest.length ?_ rest rfl)
      simp only [List.length_append,List.length_cons] at length
      omega
    · exact last text present

/-- An overhang without separators between two equally cut lists is empty: it
    would lead the first field of the next piece. -/
private theorem overhang_empty {sep : α} {left right : List (List α)} {rest : List α}
    (inLeft : ∀ piece ∈ left, sep ∈ piece) (inRight : ∀ piece ∈ right, sep ∈ piece)
    (fields : left.map (firstField sep) = right.map (firstField sep)) (absent : sep ∉ rest)
    (flat : left.flatten = rest ++ right.flatten) : rest = [] := by
  cases left with
  | nil => exact (List.append_eq_nil_iff.mp flat.symm).1
  | cons x left =>
    cases right with
    | nil => cases fields
    | cons y right =>
      simp only [List.map_cons,List.cons.injEq] at fields
      have heads := congrArg (firstField sep) flat
      simp only [List.flatten_cons] at heads
      rw [firstField_append_of_mem (inLeft x (by simp)),firstField_append_of_not_mem absent,
        firstField_append_of_mem (inRight y (by simp)),fields.1] at heads
      exact List.append_left_eq_self.mp heads.symm

private theorem absent_of_count {sep : α} {whole start rest : List α} (split : whole = start ++ rest)
    (same : whole.count sep = start.count sep) : sep ∉ rest := by
  apply List.count_eq_zero.mp
  rw [split,List.count_append] at same
  omega

/-- Two cuts of one list into pieces with equally many separators, at least one
    in each, are the same cut as soon as the first fields agree piece by piece. -/
theorem cut_unique {sep : α} {count : Nat} (positive : 0 < count) :
    ∀ {first second : List (List α)}, (∀ piece ∈ first, piece.count sep = count) →
      (∀ piece ∈ second, piece.count sep = count) →
      first.map (firstField sep) = second.map (firstField sep) →
      first.flatten = second.flatten → first = second
  | [], [], _, _, _, _ => rfl
  | [], _ :: _, _, _, fields, _ => by cases fields
  | _ :: _, [], _, _, fields, _ => by cases fields
  | a :: first, b :: second, countFirst, countSecond, fields, flat => by
    simp only [List.map_cons,List.cons.injEq] at fields
    simp only [List.flatten_cons] at flat
    have countA := countFirst a (by simp)
    have countB := countSecond b (by simp)
    have tailFirst : ∀ piece ∈ first, piece.count sep = count := fun p m => countFirst p (by simp [m])
    have tailSecond : ∀ piece ∈ second, piece.count sep = count := fun p m => countSecond p (by simp [m])
    have inFirst : ∀ piece ∈ first, sep ∈ piece :=
      fun p m => List.count_pos_iff.mp (by rw [tailFirst p m]; exact positive)
    have inSecond : ∀ piece ∈ second, sep ∈ piece :=
      fun p m => List.count_pos_iff.mp (by rw [tailSecond p m]; exact positive)
    have pieces : a = b ∧ first.flatten = second.flatten := by
      rcases List.append_eq_append_iff.mp flat with ⟨rest,longer,tail⟩ | ⟨rest,longer,tail⟩
      · have absent := absent_of_count longer (countB.trans countA.symm)
        have none := overhang_empty inFirst inSecond fields.2 absent tail
        subst none
        exact ⟨by simpa using longer.symm,by simpa using tail⟩
      · have absent := absent_of_count longer (countA.trans countB.symm)
        have none := overhang_empty inSecond inFirst fields.2.symm absent tail
        subst none
        exact ⟨by simpa using longer,by simpa using tail.symm⟩
    rw [pieces.1,cut_unique positive tailFirst tailSecond fields.2 pieces.2]

theorem count_flatten_ge {sep : α} {count : Nat} {pieces : List (List α)}
    (atLeast : ∀ piece ∈ pieces, count ≤ piece.count sep) : count * pieces.length ≤ pieces.flatten.count sep := by
  induction pieces with
  | nil => simp
  | cons piece pieces ih =>
    have head := atLeast piece (by simp)
    have tail := ih fun p m => atLeast p (by simp [m])
    simp only [List.flatten_cons,List.count_append,List.length_cons,Nat.mul_add,Nat.mul_one]
    omega

theorem count_flatten_eq {sep : α} {count : Nat} {pieces : List (List α)}
    (each : ∀ piece ∈ pieces, piece.count sep = count) : pieces.flatten.count sep = count * pieces.length := by
  rw [List.count_flatten,List.map_congr_left each,List.map_const',List.sum_replicate_nat,Nat.mul_comm]

/-- Pieces that each hold enough separators, with no more than that in all, hold
    exactly enough. -/
theorem count_eq_of_flatten_le {sep : α} {count : Nat} {pieces : List (List α)}
    (atLeast : ∀ piece ∈ pieces, count ≤ piece.count sep) (atMost : pieces.flatten.count sep ≤ count * pieces.length) :
    ∀ piece ∈ pieces, piece.count sep = count := by
  induction pieces with
  | nil => simp
  | cons piece pieces ih =>
    have head := atLeast piece (by simp)
    have tail := count_flatten_ge fun p m => atLeast p (List.mem_cons_of_mem piece m)
    simp only [List.flatten_cons,List.count_append,List.length_cons,Nat.mul_add,Nat.mul_one] at atMost
    intro p member
    rcases List.mem_cons.mp member with rfl | later
    · omega
    · exact ih (fun p m => atLeast p (by simp [m])) (by omega) p later

end SysInfo.Separated
