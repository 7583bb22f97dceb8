import SysInfo.Literals
import SysInfo.Sql
import SysInfo.Utils

/-!
# The INSERT statement of a report

What the database reads in the text that `generate_insert_str_for` prints, when
the quotes in its two text fields are doubled.
-/

namespace SysInfo.Statements
open SysInfo.Text SysInfo.Utils SysInfo.Sql

/-- `create_client_info_tables.sql`, without the serial `ID`. -/
def client_info : Table := ⟨lit "CLIENT_INFO",[(lit "CLIENT_KEY",.TEXT),(lit "MEMORY_PCT",.INTEGER),(lit "CPU_PCT",.INTEGER),
  (lit "NO_PROCESSES",.INTEGER),(lit "DT_TIME",.TEXT)]⟩

/-- The statement up to the body of its first literal. -/
def head : Bytes :=
  lit "INSERT INTO CLIENT_INFO (CLIENT_KEY, MEMORY_PCT, CPU_PCT, NO_PROCESSES, DT_TIME) VALUES ('"

/-- The statement between its two literals. -/
def middle (c_detail : ClientDetail) : Bytes :=
  lit "', " ++ to_string c_detail.curr_memory_pct ++ lit ", " ++ to_string c_detail.curr_cpu_pct ++ lit ", " ++
    to_string c_detail.curr_processes_cnt ++ lit ", '"

def tail : Bytes := lit "');"

theorem generate_insert_str_for_eq (c_detail : ClientDetail) : generate_insert_str_for c_detail =
    head ++ (c_detail.client_key ++ (middle c_detail ++ (c_detail.str_dt_time ++ tail))) := by
  have start : lit "INSERT INTO " ++ lit "CLIENT_INFO" ++
      lit " (CLIENT_KEY, MEMORY_PCT, CPU_PCT, NO_PROCESSES, DT_TIME) VALUES ('" = head := by decide +kernel
  unfold generate_insert_str_for generate_insert_str_for_table
  rw [start]
  simp [middle,tail]

def headTokens : List Token :=
  [.word (lit "INSERT"),.word (lit "INTO"),.word (lit "CLIENT_INFO"),.opening,.word (lit "CLIENT_KEY"),.comma,
    .word (lit "MEMORY_PCT"),.comma,.word (lit "CPU_PCT"),.comma,.word (lit "NO_PROCESSES"),.comma,
    .word (lit "DT_TIME"),.closing,.word (lit "VALUES"),.opening]

def middleTokens (key : Bytes) (c_detail : ClientDetail) : List Token :=
  [.literal key,.comma,.word (to_string c_detail.curr_memory_pct),.comma,.word (to_string c_detail.curr_cpu_pct),.comma,
    .word (to_string c_detail.curr_processes_cnt),.comma]

private theorem scan_head : scan ⟨[],.plain⟩ head = .ok ⟨headTokens,.literal []⟩ := by decide +kernel

private theorem scan_number (tokens : List Token) (value : UInt64) (rest : Bytes) :
    scan ⟨tokens,.plain⟩ (to_string value ++ rest) = scan ⟨tokens,.word (to_string value)⟩ rest := by
  refine scan_append_ok (scan_word (decimal_ne_nil _) ?_)
  intro c member
  simp [isWord,decimal_digits _ c member]

private theorem scan_comma (tokens : List Token) (letters rest : Bytes) :
    scan ⟨tokens,.word letters⟩ (lit ", " ++ rest) = scan ⟨tokens ++ [.word letters,.comma],.plain⟩ rest := by
  refine scan_append_ok ?_
  show scan _ [44,32] = _
  simp [scan_cons,next,between,isWord,isDigit,isSpace,mark,quote,Except.bind]

private theorem scan_close (tokens : List Token) (value rest : Bytes) :
    scan ⟨tokens,.literal value⟩ (lit "', " ++ rest) = scan ⟨tokens ++ [.literal value,.comma],.plain⟩ rest := by
  refine scan_append_ok ?_
  show scan _ [39,44,32] = _
  simp [scan_cons,next,between,isWord,isDigit,isSpace,mark,quote,Except.bind]

private theorem scan_open (tokens : List Token) (letters : Bytes) :
    scan ⟨tokens,.word letters⟩ (lit ", '") = .ok ⟨tokens ++ [.word letters,.comma],.literal []⟩ := by
  show scan _ [44,32,39] = _
  simp [scan_cons,next,between,isWord,isDigit,isSpace,mark,quote,Except.bind]

private theorem scan_middle (tokens : List Token) (key : Bytes) (c_detail : ClientDetail) :
    scan ⟨tokens,.literal key⟩ (middle c_detail) = .ok ⟨tokens ++ middleTokens key c_detail,.literal []⟩ := by
  unfold middle
  simp only [List.append_assoc]
  rw [scan_close,scan_number,scan_comma,scan_number,scan_comma,scan_number,scan_open]
  simp [middleTokens]

private theorem scan_tail (tokens : List Token) (time : Bytes) :
    scan ⟨tokens,.literal time⟩ tail = .ok ⟨tokens ++ [.literal time,.closing,.semicolon],.plain⟩ := by
  show scan _ [39,41,59] = _
  simp [scan_cons,next,between,isWord,isDigit,isSpace,mark,quote,Except.bind]

/-- The row of a report whose fields read as the key and the time. -/
def rowOf (key : Bytes) (c_detail : ClientDetail) (time : Bytes) : List Value :=
  [.text key,.number c_detail.curr_memory_pct.toNat,.number c_detail.curr_cpu_pct.toNat,
    .number c_detail.curr_processes_cnt.toNat,.text time]

private theorem value_number (value : UInt64) : value? (.word (to_string value)) = some (.number value.toNat) := by
  have digits : (decimal value.toNat).all isDigit = true := List.all_eq_true.mpr (decimal_digits _)
  show (if (decimal value.toNat).all isDigit then some (Value.number (decimalValue (decimal value.toNat))) else none) = _
  rw [if_pos digits,decimalValue_decimal]

/-- The tokens of a statement are one INSERT of one row. -/
private theorem insert_tokens (key time : Bytes) (c_detail : ClientDetail) :
    (statements (headTokens ++ middleTokens key c_detail ++ [.literal time,.closing,.semicolon])).mapM insert? =
      some [⟨lit "CLIENT_INFO",client_info.columns.map Prod.fst,[rowOf key c_detail time]⟩] := by
  have split : statements (headTokens ++ middleTokens key c_detail ++ [.literal time,.closing,.semicolon]) =
      [headTokens ++ middleTokens key c_detail ++ [.literal time,.closing]] := by
    simp [statements,headTokens,middleTokens,List.splitOn_cons_eq_if_modifyHead]
  have literal : ∀ value, value? (.literal value) = some (.text value) := fun _ => rfl
  have rows : rowsFrom [] (middleTokens key c_detail ++ [.literal time,.closing]) = some [rowOf key c_detail time] := by
    simp [middleTokens,rowsFrom,value_number,literal,rowOf]
  have insert : insert? (headTokens ++ (middleTokens key c_detail ++ [.literal time,.closing])) =
      some ⟨lit "CLIENT_INFO",client_info.columns.map Prod.fst,[rowOf key c_detail time]⟩ := by
    simp [headTokens,insert?,columnsFrom,rows,client_info]
  rw [split,List.append_assoc]
  simp [insert]

/-- The numbers of a report fit their columns. -/
def Fits (c_detail : ClientDetail) : Prop :=
  c_detail.curr_memory_pct.toNat < 2147483648 ∧ c_detail.curr_cpu_pct.toNat < 2147483648 ∧
    c_detail.curr_processes_cnt.toNat < 2147483648

instance (c_detail : ClientDetail) : Decidable (Fits c_detail) := inferInstanceAs (Decidable (_ ∧ _ ∧ _))

private theorem clean_middle (c_detail : ClientDetail) : (0 : Byte) ∉ middle c_detail := by
  have number : ∀ value, (0 : Byte) ∉ to_string value := by
    intro value member
    have digit := decimal_digits _ 0 member
    revert digit
    decide
  have literals : (0 : Byte) ∉ lit "', " ∧ (0 : Byte) ∉ lit ", " ∧ (0 : Byte) ∉ lit ", '" := by decide
  simp [middle,number,literals]

/-- The C string of a statement: a NUL in a text field cuts it inside of the
    literal of that field. -/
theorem cString_statement (c_detail : ClientDetail) : cString (generate_insert_str_for c_detail) =
    if 0 ∈ c_detail.client_key then head ++ cString c_detail.client_key
    else if 0 ∈ c_detail.str_dt_time then head ++ (c_detail.client_key ++ (middle c_detail ++ cString c_detail.str_dt_time))
    else generate_insert_str_for c_detail := by
  have clean : (0 : Byte) ∉ head := by decide +kernel
  have clean' : (0 : Byte) ∉ tail := by decide
  rw [generate_insert_str_for_eq,cString_append,if_neg clean,cString_append]
  split
  · rfl
  · rw [cString_append,if_neg (clean_middle c_detail),cString_append]
    split
    · rfl
    · rw [cString_of_not_mem clean']

theorem tokensOf_statement {c_detail : ClientDetail} {key time : Bytes} (keySafe : unquote c_detail.client_key = some key)
    (timeSafe : unquote c_detail.str_dt_time = some time) :
    tokensOf (cString (generate_insert_str_for c_detail)) =
      if 0 ∉ c_detail.client_key ∧ 0 ∉ c_detail.str_dt_time then
        .ok (headTokens ++ middleTokens key c_detail ++ [.literal time,.closing,.semicolon])
      else .error .refused := by
  have cut : ∀ {body value : Bytes}, unquote body = some value → ∃ shorter, unquote (cString body) = some shorter :=
    fun safe => unquote_takeWhile (by decide) safe
  rw [cString_statement]
  by_cases keyCut : (0 : Byte) ∈ c_detail.client_key
  · obtain ⟨shorter,safe⟩ := cut keySafe
    rw [if_pos keyCut,if_neg (fun clean => clean.1 keyCut)]
    exact tokensOf_unterminated (by rw [scan_append_ok scan_head,scan_literal safe])
  · rw [if_neg keyCut]
    by_cases timeCut : (0 : Byte) ∈ c_detail.str_dt_time
    · obtain ⟨shorter,safe⟩ := cut timeSafe
      rw [if_pos timeCut,if_neg (fun clean => clean.2 timeCut)]
      have read : scan ⟨[],.plain⟩ (head ++ (c_detail.client_key ++ (middle c_detail ++ cString c_detail.str_dt_time))) =
          .ok ⟨headTokens ++ middleTokens key c_detail,.literal shorter⟩ := by
        rw [scan_append_ok scan_head,scan_append_ok (scan_literal keySafe),scan_append_ok (scan_middle _ _ _),
          scan_literal safe]
        rfl
      exact tokensOf_unterminated read
    · rw [if_neg timeCut,if_pos ⟨keyCut,timeCut⟩,generate_insert_str_for_eq]
      unfold tokensOf
      rw [scan_append_ok scan_head,scan_append_ok (scan_literal keySafe),scan_append_ok (scan_middle _ _ _),
        scan_append_ok (scan_literal timeSafe),scan_tail]
      simp [finish,List.append_assoc]
      rfl

/-- What the database reads in the statement of a report whose text fields have
    only doubled quotes. -/
theorem readRows_statement {c_detail : ClientDetail} {key time : Bytes} (keySafe : unquote c_detail.client_key = some key)
    (timeSafe : unquote c_detail.str_dt_time = some time) :
    readRows client_info (cString (generate_insert_str_for c_detail)) =
      if (0 ∉ c_detail.client_key ∧ 0 ∉ c_detail.str_dt_time) ∧ Fits c_detail then .ok [rowOf key c_detail time]
      else .error .refused := by
  have tokens := tokensOf_statement keySafe timeSafe
  by_cases clean : (0 : Byte) ∉ c_detail.client_key ∧ (0 : Byte) ∉ c_detail.str_dt_time
  · rw [if_pos clean] at tokens
    have into : [(⟨lit "CLIENT_INFO",client_info.columns.map Prod.fst,[rowOf key c_detail time]⟩ : Insert)].all
        (fun insert => insert.into client_info) = true := by
      simp [Insert.into,client_info,rowOf,Value.kind]
    have fits : [rowOf key c_detail time].all (fun row => row.all Value.fits) = true ↔ Fits c_detail := by
      simp [rowOf,Value.fits,Fits]
    rw [readRows_of_inserts tokens (insert_tokens key time c_detail) into]
    simp only [List.flatMap_singleton,fits,clean,not_false_eq_true,and_self,true_and]
  · rw [if_neg clean] at tokens
    rw [if_neg fun both => clean both.1]
    exact readRows_of_refused tokens

/-! ## The statement as it is meant -/

/-- The statement with a literal for the key and one for the time, and everything
    else as plain text. -/
def statementPieces (c_detail : ClientDetail) : List (Literals.Piece Byte) :=
  Literals.plain (lit "INSERT INTO CLIENT_INFO (CLIENT_KEY, MEMORY_PCT, CPU_PCT, NO_PROCESSES, DT_TIME) VALUES (") ++
    .literal c_detail.client_key :: (Literals.plain (lit ", " ++ to_string c_detail.curr_memory_pct ++ lit ", " ++
      to_string c_detail.curr_cpu_pct ++ lit ", " ++ to_string c_detail.curr_processes_cnt ++ lit ", ") ++
    .literal c_detail.str_dt_time :: Literals.plain (lit ");"))

theorem write_statementPieces (c_detail : ClientDetail) :
    Literals.write quote (statementPieces c_detail) = generate_insert_str_for c_detail := by
  have opening : head =
      lit "INSERT INTO CLIENT_INFO (CLIENT_KEY, MEMORY_PCT, CPU_PCT, NO_PROCESSES, DT_TIME) VALUES (" ++ [quote] := by decide +kernel
  have between : lit "', " = quote :: lit ", " := rfl
  have reopening : lit ", '" = lit ", " ++ [quote] := rfl
  have closing : tail = quote :: lit ");" := rfl
  rw [generate_insert_str_for_eq,opening,middle,between,reopening,closing]
  simp only [statementPieces,Literals.write_append,Literals.write_literal,Literals.write_plain,List.append_assoc,
    List.cons_append,List.nil_append]

private theorem quote_not_mem_to_string (value : UInt64) : quote ∉ to_string value := by
  intro member
  exact absurd (decimal_digits _ quote member) (by decide)

theorem apart_statementPieces (c_detail : ClientDetail) : Literals.Apart quote (statementPieces c_detail) := by
  have numbers := quote_not_mem_to_string
  have comma : quote ∉ lit ", " := by decide
  have closing : Literals.Apart quote (Literals.plain (lit ");") ++ []) := Literals.apart_plain (by decide) trivial
  have time : Literals.Apart quote (.literal c_detail.str_dt_time :: Literals.plain (lit ");")) :=
    Literals.apart_literal (by decide) closing
  refine Literals.apart_plain (by decide +kernel) (Literals.apart_literal (by simp [lit]) (Literals.apart_plain ?_ time))
  simp [numbers,comma]

/-- The printed statement is read as the one that is meant exactly if neither text
    field has a quote. -/
theorem statement_faithful_iff (c_detail : ClientDetail) :
    Literals.read quote .outside (generate_insert_str_for c_detail) = some (statementPieces c_detail) ↔
      quote ∉ c_detail.client_key ∧ quote ∉ c_detail.str_dt_time := by
  rw [← write_statementPieces,Literals.read_write_iff (apart_statementPieces c_detail)]
  constructor
  · intro clean
    exact ⟨clean _ (by simp [statementPieces]),clean _ (by simp [statementPieces])⟩
  · rintro ⟨key,time⟩ value member
    have texts : value = c_detail.client_key ∨ value = c_detail.str_dt_time := by
      simpa [statementPieces,Literals.plain] using member
    rcases texts with rfl | rfl
    · exact key
    · exact time

end SysInfo.Statements
