import SysInfo.Loops
import SysInfo.Utils

/-!
# Waiting for the user

The loops in which the server and the client read lines from the standard input
until one of them is `quit`.
-/

namespace SysInfo.UserInput
open SysInfo.Text SysInfo.Separated SysInfo.Utils SysInfo.Loops

/-! ## Lines of a stream -/

/-- `std::cin`: the bytes that were not extracted yet, and the two bits of its
    state that reading lines sets. -/
structure Istream where
  rest : Bytes
  eofbit : Bool
  failbit : Bool
  deriving DecidableEq

/-- A stream from which nothing was read. -/
def Istream.opened (input : Bytes) : Istream := ⟨input,false,false⟩

/-- `std::getline`: the string and the stream after it. On a stream that is not
    good the string is not even erased; a line that the end of the input cuts
    off counts as read unless it is empty. -/
def getline (cin : Istream) (str : Bytes) : Bytes × Istream :=
  if cin.eofbit || cin.failbit then (str,{ cin with failbit := true })
  else
    let line := firstField newline cin.rest
    match cin.rest.drop line.length with
    | [] => (line,⟨[],true,decide (line = [])⟩)
    | _ :: rest => (line,⟨rest,false,false⟩)

/-- A line that a newline ends. -/
theorem getline_line {line : Bytes} (plain : newline ∉ line) (rest str : Bytes) :
    getline (.opened (line ++ newline :: rest)) str = (line,.opened rest) := by
  have first : firstField newline (line ++ newline :: rest) = line := by
    rw [firstField_append_of_not_mem plain]
    simp [firstField]
  simp [getline,Istream.opened,first]

/-- The last line, when no newline ends it, or nothing at all. -/
theorem getline_last {line : Bytes} (plain : newline ∉ line) (str : Bytes) :
    getline (.opened line) str = (line,⟨[],true,decide (line = [])⟩) := by
  simp [getline,Istream.opened,firstField_of_not_mem plain]

theorem getline_ended {cin : Istream} (ended : cin.eofbit = true) (str : Bytes) :
    getline cin str = (str,{ cin with failbit := true }) := by
  simp [getline,ended]

/-! ## The loops -/

structure State where
  user_input : Bytes
  cin : Istream
  deriving DecidableEq

/-- The body of the loop. -/
def read_input (s : State) : State :=
  let (user_input,cin) := getline s.cin s.user_input
  ⟨user_input,cin⟩

/-- The loop that ends with a word: its iterations and the state after them, `none`
    when the fuel does not last. -/
def wait_for (word : Bytes) (fuel : Nat) (cin : Istream) : Option (Nat × State) :=
  doWhile read_input (fun s => decide (s.user_input ≠ word)) fuel ⟨[],cin⟩

def quit : Bytes := lit "quit"

/-- `server_service::wait_till_user_quits`. -/
def server_service.wait_till_user_quits (fuel : Nat) (cin : Istream) : Option (Nat × State) := wait_for quit fuel cin

/-- `wait_till_user_quits` of the client. -/
def client_main.wait_till_user_quits (fuel : Nat) (cin : Istream) : Option (Nat × State) := wait_for quit fuel cin

/-- The lines between the newlines of the input; the last is empty where a newline
    ends the input. -/
def lines (input : Bytes) : List Bytes := input.splitOn newline

/-- The loop ends: with the first line that is the word, or else at the end of the
    input. -/
def EndsInTime (word : Bytes) (wait : Nat → Istream → Option (Nat × State)) (input : Bytes) : Prop :=
  ∃ fuel iterations s, wait fuel (.opened input) = some (iterations,s) ∧
    (word ∈ lines input → iterations = (lines input).idxOf word + 1) ∧ (word ∉ lines input → s.cin.eofbit = true)

theorem lines_last {line : Bytes} (plain : newline ∉ line) : lines line = [line] := List.splitOn_eq_singleton plain

theorem lines_more {line : Bytes} (plain : newline ∉ line) (rest : Bytes) :
    lines (line ++ newline :: rest) = line :: lines rest :=
  List.splitOn_append_cons_self_of_not_mem plain rest

section
variable {word : Bytes}

/-- Every line before the first one that is the word takes an iteration. -/
theorem ends_of_mem {input : Bytes} (present : word ∈ lines input) (str : Bytes) :
    ∃ s, Ends read_input (fun s => decide (s.user_input ≠ word)) ⟨str,.opened input⟩ ((lines input).idxOf word + 1) s := by
  induction input using fields_induction newline generalizing str with
  | last line plain =>
    rw [lines_last plain] at *
    cases List.mem_singleton.mp present
    rw [List.idxOf_cons_self]
    exact ⟨_,.last (by simp [read_input,getline_last plain])⟩
  | more line rest plain ih =>
    have body : read_input ⟨str,.opened (line ++ newline :: rest)⟩ = ⟨line,.opened rest⟩ := by
      simp [read_input,getline_line plain]
    rw [lines_more plain] at *
    by_cases same : line = word
    · subst same
      rw [List.idxOf_cons_self]
      exact ⟨_,.last (by simp [body])⟩
    · obtain ⟨s,ends⟩ := ih (List.mem_of_ne_of_mem (Ne.symm same) present) line
      refine ⟨s,?_⟩
      rw [List.idxOf_cons_ne _ same]
      refine .next (by simp [body,same]) ?_
      rw [body]
      exact ends

variable (word)

/-- What the loop cannot get out of: no line to come is the word, or the input has
    ended with something else. -/
def Missing (s : State) : Prop :=
  (∃ input, s.cin = .opened input ∧ word ∉ lines input) ∨ (s.cin.eofbit = true ∧ s.user_input ≠ word)

variable {word}

theorem missing_step (s : State) (missing : Missing word s) :
    Missing word (read_input s) ∧ decide ((read_input s).user_input ≠ word) = true := by
  obtain ⟨str,cin⟩ := s
  rcases missing with ⟨input,rfl,absent⟩ | ⟨ended,other⟩
  · induction input using fields_induction newline with
    | last line plain =>
      rw [lines_last plain,List.mem_singleton] at absent
      simp [Missing,read_input,getline_last plain,Ne.symm absent]
    | more line rest plain _ =>
      rw [lines_more plain,List.mem_cons,not_or] at absent
      refine ⟨.inl ⟨rest,?_,absent.2⟩,?_⟩
      · simp [read_input,getline_line plain]
      · simp [read_input,getline_line plain,Ne.symm absent.1]
  · have stays : read_input ⟨str,cin⟩ = ⟨str,{ cin with failbit := true }⟩ := by
      simp [read_input,getline_ended ended]
    rw [stays]
    exact ⟨.inr ⟨ended,other⟩,decide_eq_true other⟩

/-- The end of the input does not end the loop. -/
theorem never_ends {input : Bytes} (absent : word ∉ lines input) (fuel : Nat) : wait_for word fuel (.opened input) = none := by
  cases waited : wait_for word fuel (.opened input) with
  | none => rfl
  | some ended =>
    have start : Missing word ⟨[],.opened input⟩ := .inl ⟨input,rfl,absent⟩
    exact absurd (doWhile_eq_some_iff.mp waited).2 (not_ends_of_invariant missing_step start _ _)

theorem wait_for_of_mem {input : Bytes} (present : word ∈ lines input) :
    ∃ fuel s, wait_for word fuel (.opened input) = some ((lines input).idxOf word + 1,s) := by
  obtain ⟨s,ends⟩ := ends_of_mem present []
  exact ⟨_,s,doWhile_eq_some_iff.mpr ⟨le_rfl,ends⟩⟩

theorem endsInTime_iff (input : Bytes) : EndsInTime word (wait_for word) input ↔ word ∈ lines input := by
  constructor
  · rintro ⟨fuel,iterations,s,ended,_⟩
    by_contra absent
    rw [never_ends absent] at ended
    cases ended
  · intro present
    obtain ⟨fuel,s,ended⟩ := wait_for_of_mem present
    exact ⟨fuel,_,s,ended,fun _ => rfl,fun absent => absurd present absent⟩

end

/-- Both programs stop waiting exactly if some line of the input is `quit`. -/
theorem waiting_ends_iff (input : Bytes) :
    (EndsInTime quit server_service.wait_till_user_quits input ↔ quit ∈ lines input) ∧
    (EndsInTime quit client_main.wait_till_user_quits input ↔ quit ∈ lines input) :=
  ⟨endsInTime_iff input,endsInTime_iff input⟩

example : server_service.wait_till_user_quits 3 (.opened (lit "help\nquit\nno")) = some (2,⟨quit,.opened (lit "no")⟩) := by decide

/-- On an input that is closed at once neither loop ends. -/
theorem closed_input_waits_forever : ¬ ((∀ input, EndsInTime quit server_service.wait_till_user_quits input) ∧
    ∀ input, EndsInTime quit client_main.wait_till_user_quits input) := by
  rintro ⟨server,_⟩
  have ends : EndsInTime quit (wait_for quit) [] := server []
  exact absurd ((endsInTime_iff []).mp ends) (by decide)

end SysInfo.UserInput
