import Mathlib.Algebra.GroupWithZero.Nat
import Mathlib.Data.List.Basic

/-!
# Literals between quotes

A text of plain characters and of literals, in which a doubled quote stands for
one. A writer that puts values between quotes as they are, without doubling, is
read back exactly when no value has a quote: a quote that is read takes two
characters of the text, so nothing that has one can have been written.
-/

namespace SysInfo.Literals
universe u

variable {α : Type u} (quote : α)

inductive Piece (α : Type u) where
  | plain (c : α)
  | literal (value : List α)

/-! ## Writing -/

/-- A piece as it is, its quotes not doubled. -/
def Piece.write : Piece α → List α
  | .plain c => [c]
  | .literal value => quote :: (value ++ [quote])

def write (pieces : List (Piece α)) : List α := pieces.flatMap (Piece.write quote)

def plain (text : List α) : List (Piece α) := text.map .plain

/-- Plain characters are no quotes, and between two literals there is one. -/
def Apart : List (Piece α) → Prop
  | [] => True
  | .plain c :: rest => c ≠ quote ∧ Apart rest
  | .literal _ :: .literal _ :: _ => False
  | .literal _ :: rest => Apart rest

variable {quote}

theorem write_append (first second : List (Piece α)) : write quote (first ++ second) = write quote first ++ write quote second :=
  List.flatMap_append

theorem write_literal (value : List α) (rest : List (Piece α)) :
    write quote (.literal value :: rest) = quote :: (value ++ quote :: write quote rest) := by
  simp [write,Piece.write]

theorem write_plain (text : List α) : write quote (plain text) = text := by
  induction text with
  | nil => rfl
  | cons c text ih =>
    show c :: write quote (plain text) = c :: text
    rw [ih]

theorem apart_plain {text : List α} {rest : List (Piece α)} (clean : quote ∉ text) (apart : Apart quote rest) :
    Apart quote (plain text ++ rest) := by
  induction text with
  | nil => exact apart
  | cons c text ih =>
    have other : c ≠ quote := fun same => clean (by simp [same])
    exact ⟨other,ih fun member => clean (by simp [member])⟩

theorem apart_literal {value text : List α} {rest : List (Piece α)} (between : text ≠ [])
    (apart : Apart quote (plain text ++ rest)) : Apart quote (.literal value :: (plain text ++ rest)) := by
  cases text with
  | nil => contradiction
  | cons c text => exact apart

/-! ## Reading -/

variable [DecidableEq α] (quote)

/-- Outside a literal, inside of one, or behind a quote in it. -/
inductive Place (α : Type u) where
  | outside
  | inside (value : List α)
  | closing (value : List α)

/-- The pieces of a text; `none` where its last literal is not closed. -/
def read : Place α → List α → Option (List (Piece α))
  | .outside, [] => some []
  | .inside _, [] => none
  | .closing value, [] => some [.literal value]
  | .outside, c :: rest => if c = quote then read (.inside []) rest else (read .outside rest).map (.plain c :: ·)
  | .inside value, c :: rest => if c = quote then read (.closing value) rest else read (.inside (value ++ [c])) rest
  | .closing value, c :: rest =>
    if c = quote then read (.inside (value ++ [quote])) rest
    else (read .outside rest).map fun more => .literal value :: .plain c :: more

/-- The characters that a piece was read from. -/
def Piece.span : Piece α → Nat
  | .plain _ => 1
  | .literal value => value.length + value.count quote + 2

def Place.span : Place α → Nat
  | .outside => 0
  | .inside value => value.length + value.count quote + 1
  | .closing value => value.length + value.count quote + 2

variable {quote}

theorem span_of_read : ∀ {text : List α} {place : Place α} {pieces : List (Piece α)},
    read quote place text = some pieces → (pieces.map (Piece.span quote)).sum = place.span quote + text.length
  | [], .outside, pieces, taken => by
    cases Option.some.inj taken
    rfl
  | [], .inside _, pieces, taken => by cases taken
  | [], .closing value, pieces, taken => by
    cases Option.some.inj taken
    simp [Piece.span,Place.span]
  | c :: rest, .outside, pieces, taken => by
    by_cases same : c = quote
    · rw [read,if_pos same] at taken
      have tail := span_of_read taken
      simp only [Place.span,List.length_nil,List.count_nil,List.length_cons] at tail ⊢
      omega
    · rw [read,if_neg same] at taken
      obtain ⟨more,later,rfl⟩ := Option.map_eq_some_iff.mp taken
      have tail := span_of_read later
      simp only [Place.span,Piece.span,List.map_cons,List.sum_cons,List.length_cons] at tail ⊢
      omega
  | c :: rest, .inside value, pieces, taken => by
    by_cases same : c = quote
    · rw [read,if_pos same] at taken
      have tail := span_of_read taken
      simp only [Place.span,List.length_cons] at tail ⊢
      omega
    · rw [read,if_neg same] at taken
      have tail := span_of_read taken
      simp only [Place.span,List.length_append,List.length_cons,List.length_nil,List.count_append,
        List.count_singleton,beq_iff_eq,same,if_false] at tail ⊢
      omega
  | c :: rest, .closing value, pieces, taken => by
    by_cases same : c = quote
    · rw [read,if_pos same] at taken
      have tail := span_of_read taken
      simp only [Place.span,List.length_append,List.length_cons,List.length_nil,List.count_append,
        List.count_singleton_self] at tail ⊢
      omega
    · rw [read,if_neg same] at taken
      obtain ⟨more,later,rfl⟩ := Option.map_eq_some_iff.mp taken
      have tail := span_of_read later
      simp only [Place.span,Piece.span,List.map_cons,List.sum_cons,List.length_cons] at tail ⊢
      omega

/-- The quotes that the writer does not double. -/
def Piece.quotes (quote : α) : Piece α → Nat
  | .plain _ => 0
  | .literal value => value.count quote

theorem span_write (pieces : List (Piece α)) :
    (pieces.map (Piece.span quote)).sum = (write quote pieces).length + (pieces.map (Piece.quotes quote)).sum := by
  induction pieces with
  | nil => rfl
  | cons piece pieces ih =>
    have one : piece.span quote = (piece.write quote).length + piece.quotes quote := by
      cases piece with
      | plain c => rfl
      | literal value =>
        simp only [Piece.span,Piece.write,Piece.quotes,List.length_cons,List.length_append,List.length_nil]
        omega
    have split : (write quote (piece :: pieces)).length = (piece.write quote).length + (write quote pieces).length := by
      simp [write]
    rw [List.map_cons,List.map_cons,List.sum_cons,List.sum_cons,split]
    omega

/-- What is read of written pieces, if it is those pieces, had no quotes. -/
theorem quoteless_of_read {pieces : List (Piece α)} (taken : read quote .outside (write quote pieces) = some pieces) :
    ∀ value, .literal value ∈ pieces → quote ∉ value := by
  intro value member
  have spans := span_of_read taken
  rw [span_write] at spans
  have none : (pieces.map (Piece.quotes quote)).sum = 0 := by
    simp only [Place.span] at spans
    omega
  exact List.count_eq_zero.mp (List.sum_eq_zero_iff_forall_eq_nat.mp none _ (List.mem_map.mpr ⟨_,member,rfl⟩))

/-! ## Without quotes the writer is faithful -/

theorem read_inside {value text : List α} (clean : quote ∉ text) (rest : List α) :
    read quote (.inside value) (text ++ rest) = read quote (.inside (value ++ text)) rest := by
  induction text generalizing value with
  | nil => simp
  | cons c text ih =>
    have other : c ≠ quote := fun same => clean (by simp [same])
    rw [List.cons_append,read,if_neg other,ih fun member => clean (List.mem_cons_of_mem c member)]
    simp

theorem read_write {pieces : List (Piece α)} (apart : Apart quote pieces)
    (clean : ∀ value, .literal value ∈ pieces → quote ∉ value) : read quote .outside (write quote pieces) = some pieces := by
  induction pieces with
  | nil => rfl
  | cons piece pieces ih =>
    have clean' : ∀ value, .literal value ∈ pieces → quote ∉ value := fun value member => clean value (by simp [member])
    cases piece with
    | plain c =>
      have later := ih apart.2 clean'
      show read quote .outside (c :: write quote pieces) = _
      rw [read,if_neg apart.1,later]
      rfl
    | literal value =>
      show read quote .outside (quote :: (value ++ [quote] ++ write quote pieces)) = _
      rw [read,if_pos rfl,List.append_assoc,read_inside (clean value (by simp)),List.nil_append,List.singleton_append,
        read,if_pos rfl]
      cases pieces with
      | nil => rfl
      | cons next pieces =>
        cases next with
        | literal _ => cases apart
        | plain c =>
          have later := ih apart clean'
          have outside := apart.1
          change read quote .outside (c :: write quote pieces) = _ at later
          show read quote (.closing value) (c :: write quote pieces) = _
          rw [read,if_neg outside] at later
          rw [read,if_neg outside]
          obtain ⟨more,taken,same⟩ := Option.map_eq_some_iff.mp later
          rw [taken]
          simp [← same]

/-- Written pieces are read back exactly if no literal has a quote. -/
theorem read_write_iff {pieces : List (Piece α)} (apart : Apart quote pieces) :
    read quote .outside (write quote pieces) = some pieces ↔ ∀ value, .literal value ∈ pieces → quote ∉ value :=
  ⟨quoteless_of_read,read_write apart⟩

end SysInfo.Literals
