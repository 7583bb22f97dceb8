import SysInfo.SessionRuns
import SysInfo.Statements

/-!
# What a report line says and what is made of it

The line that `generate_random_sys_info_data` builds, read back by the parser;
the numbers of a line on their way into the statement and the comparison with
the limits; and the chunks a session stores.
-/

namespace SysInfo.Reports
open SysInfo.Text SysInfo.Separated SysInfo.Utils SysInfo.Statements SysInfo.Transition SysInfo.Session SysInfo.SessionRuns

/-! ## Lines -/

/-- A line of the five fields in their order. -/
def line (client_key memory cpu processes str_time : Bytes) : Bytes :=
  client_key ++ separator :: (memory ++ separator :: (cpu ++ separator :: (processes ++ separator :: str_time)))

/-- What the parser makes of a field with a number. -/
def number (field : Bytes) : UInt64 := sizeOfInt (atoi (cString field))

/-- The line is cut at the separators between its fields; a time text with
    separators of its own loses what follows the first of them. -/
theorem parse_line {client_key memory cpu processes : Bytes} (key : separator ∉ client_key) (m : separator ∉ memory)
    (c : separator ∉ cpu) (p : separator ∉ processes) (str_time : Bytes) :
    parse_to_client_detail (line client_key memory cpu processes str_time) =
      some ⟨client_key,number memory,number cpu,number processes,(firstField separator str_time).filter (· ≠ newline)⟩ := by
  have fields : (line client_key memory cpu processes str_time).splitOn separator =
      client_key :: memory :: cpu :: processes :: str_time.splitOn separator := by
    unfold line
    rw [List.splitOn_append_cons_self_of_not_mem key,List.splitOn_append_cons_self_of_not_mem m,
      List.splitOn_append_cons_self_of_not_mem c,List.splitOn_append_cons_self_of_not_mem p]
  have time := splitOn_zero separator str_time
  simp [parse_to_client_detail,fields,number,time]

theorem separator_not_mem_numeral {field : Bytes} {value : Int} (numeral : integerValue field = some value) :
    separator ∉ field := by
  intro member
  exact absurd (mem_numeral numeral separator member) (by decide)

theorem number_numeral {field : Bytes} {value : Int} (numeral : integerValue field = some value) :
    ((number field).toNat : Int) = value ∧ (number field).toNat < 2147483648 ↔ 0 ≤ value ∧ value ≤ 2147483647 := by
  unfold number
  rw [cString_numeral numeral]
  exact sizeOfInt_numeral numeral

theorem integerValue_to_string_int {value : Int} (positive : 0 ≤ value) : integerValue (to_string_int value) = some value := by
  rw [to_string_int,if_neg (by omega),integerValue_decimal]
  congr 1
  omega

/-! ## The line of the client, read by the server -/

/-- The detail has the key and the numbers, and the time without its newlines. -/
structure Decodes (client_key : Bytes) (m c p : Int) (str_time : Bytes) (c_detail : ClientDetail) : Prop where
  client_key : c_detail.client_key = client_key
  memory : (c_detail.curr_memory_pct.toNat : Int) = m
  cpu : (c_detail.curr_cpu_pct.toNat : Int) = c
  processes : (c_detail.curr_processes_cnt.toNat : Int) = p
  str_dt_time : c_detail.str_dt_time = str_time.filter (· ≠ newline)

theorem generate_random_sys_info_data_eq (client_key : Bytes) (m c p : Int) (str_time : Bytes) :
    generate_random_sys_info_data client_key m c p str_time =
      line client_key (to_string_int m) (to_string_int c) (to_string_int p) str_time := by
  have bar : lit "|" = [separator] := rfl
  simp [generate_random_sys_info_data,line,bar]

/-- The parser reads every line of the client, and reads the report that was put
    into it exactly if the key has no separator. -/
theorem parse_generated_iff (client_key str_time : Bytes) (m c p : Int) (memory : 0 ≤ m ∧ m ≤ 2147483647)
    (cpu : 0 ≤ c ∧ c ≤ 2147483647) (processes : 0 ≤ p ∧ p ≤ 2147483647) (time : separator ∉ str_time) :
    ∃ c_detail, parse_to_client_detail (generate_random_sys_info_data client_key m c p str_time) = some c_detail ∧
      (Decodes client_key m c p str_time c_detail ↔ separator ∉ client_key) := by
  rw [generate_random_sys_info_data_eq]
  have nm := integerValue_to_string_int memory.1
  have nc := integerValue_to_string_int cpu.1
  have np := integerValue_to_string_int processes.1
  have inRange : 4 ≤ (line client_key (to_string_int m) (to_string_int c) (to_string_int p) str_time).count separator := by
    simp only [line,List.count_append,List.count_cons_self]
    omega
  obtain ⟨c_detail,parsed⟩ := Option.isSome_iff_exists.mp ((parse_isSome_iff _).mpr inRange)
  refine ⟨c_detail,parsed,?_,?_⟩
  · intro decodes present
    have first := parse_client_key parsed
    rw [decodes.client_key,line,firstField_append_of_mem present] at first
    rw [first] at present
    have head := List.mem_takeWhile_imp present
    simp at head
  · intro absent
    rw [parse_line absent (separator_not_mem_numeral nm) (separator_not_mem_numeral nc) (separator_not_mem_numeral np)] at parsed
    cases Option.some.inj parsed
    refine ⟨rfl,((number_numeral nm).mpr memory).1,((number_numeral nc).mpr cpu).1,((number_numeral np).mpr processes).1,?_⟩
    show List.filter _ (firstField separator str_time) = _
    rw [firstField_of_not_mem time]

/-- The line of the parsing test. -/
theorem parse_generated_test : ∃ c_detail,
    parse_to_client_detail (generate_random_sys_info_data (lit "xxx") 16 88 25 (lit "Sat Nov 26 18:31:34 2016\n")) = some c_detail ∧
      (Decodes (lit "xxx") 16 88 25 (lit "Sat Nov 26 18:31:34 2016\n") c_detail ↔ separator ∉ lit "xxx") :=
  parse_generated_iff _ _ 16 88 25 (by decide) (by decide) (by decide) (by decide)

/-! ## Numbers on their way to the statement and the limits -/

/-- What an accepted report with the numbers `m`, `c` and `p` calls for: literals
    that denote them and fit their columns, and mail exactly above a limit. -/
structure KeepsValues (c_config : ClientConfig) (m c p : Int) (events : List Event) : Prop where
  literals : .do_write .READ_SUCCESS ∈ events → ∃ c_detail, .write_to_db c_detail ∈ events ∧ Fits c_detail ∧
    integerValue (to_string c_detail.curr_memory_pct) = some m ∧
    integerValue (to_string c_detail.curr_cpu_pct) = some c ∧
    integerValue (to_string c_detail.curr_processes_cnt) = some p
  mail : .do_write .READ_SUCCESS ∈ events → (.send_email ∈ events ↔
    (c_config.memory_limit.toNat : Int) < m ∨ (c_config.cpu_limit.toNat : Int) < c ∨ (c_config.processes_limit.toNat : Int) < p)

private theorem not_mem_write_to_db {event : Event} (other : ∀ insert_SQL execution, event ≠ .execute insert_SQL execution)
    (insert_SQL : Bytes) (task : Task) : event ∉ write_to_db insert_SQL task := by
  unfold write_to_db
  cases task.launch with
  | async => simp [other]
  | deferred => simp

/-- The events of an authorized report, one kind at a time. -/
theorem mem_respondTo {authorized_clients : Clients} {c_detail : ClientDetail} {c_config : ClientConfig}
    (found : authorized_clients.lookup c_detail.client_key = some c_config) (task : Task) :
    .do_write .READ_SUCCESS ∈ respondTo authorized_clients c_detail task ∧
    (∀ other, .write_to_db other ∈ respondTo authorized_clients c_detail task ↔ other = c_detail) ∧
    (.send_email ∈ respondTo authorized_clients c_detail task ↔ limitCrossed c_config c_detail = true) := by
  have noDetail : ∀ other, Event.write_to_db other ∉ write_to_db (generate_insert_str_for c_detail) task :=
    fun other => not_mem_write_to_db (fun _ _ => Event.noConfusion) _ _
  have noMail : Event.send_email ∉ write_to_db (generate_insert_str_for c_detail) task :=
    not_mem_write_to_db (fun _ _ => Event.noConfusion) _ _
  unfold respondTo
  rw [found]
  refine ⟨by simp,?_,?_⟩
  · intro other
    cases limitCrossed c_config c_detail <;> simp [noDetail]
  · cases crossed : limitCrossed c_config c_detail <;> simp [noMail,crossed]

/-- The one statement that is executed is that of the detail, unless its task is
    deferred. -/
theorem execute_mem_respondTo {authorized_clients : Clients} {c_detail : ClientDetail} {c_config : ClientConfig}
    (found : authorized_clients.lookup c_detail.client_key = some c_config) (task : Task) (insert_SQL : Bytes)
    (execution : Execution) : .execute insert_SQL execution ∈ respondTo authorized_clients c_detail task ↔
      task.launch = .async ∧ insert_SQL = generate_insert_str_for c_detail ∧ execution = task.execution := by
  have only : .execute insert_SQL execution ∈ respondTo authorized_clients c_detail task ↔
      .execute insert_SQL execution ∈ write_to_db (generate_insert_str_for c_detail) task := by
    unfold respondTo
    rw [found]
    cases crossed : limitCrossed c_config c_detail <;> simp [crossed]
  rw [only]
  unfold write_to_db
  cases launch : task.launch with
  | async => simp
  | deferred => simp

/-- A printed number denotes what was reported and fits its column exactly for the
    numbers an `int` has from zero on. -/
private theorem literal_iff {field : Bytes} {value : Int} (numeral : integerValue field = some value) :
    integerValue (to_string (number field)) = some value ∧ (number field).toNat < 2147483648 ↔
      0 ≤ value ∧ value ≤ 2147483647 := by
  rw [← number_numeral numeral,to_string,integerValue_decimal,Option.some.injEq]

private theorem keepsValues_respondTo {authorized_clients : Clients} {client_key memory cpu processes time : Bytes}
    {m c p : Int} {c_config : ClientConfig} (nm : integerValue memory = some m) (nc : integerValue cpu = some c)
    (np : integerValue processes = some p) (found : authorized_clients.lookup client_key = some c_config) (task : Task) :
    KeepsValues c_config m c p
        (respondTo authorized_clients ⟨client_key,number memory,number cpu,number processes,time⟩ task) ↔
      (0 ≤ m ∧ m ≤ 2147483647) ∧ (0 ≤ c ∧ c ≤ 2147483647) ∧ (0 ≤ p ∧ p ≤ 2147483647) := by
  obtain ⟨success,stored,mailed⟩ := @mem_respondTo authorized_clients
    ⟨client_key,number memory,number cpu,number processes,time⟩ c_config found task
  constructor
  · rintro ⟨literals,_⟩
    obtain ⟨c_detail,member,fits,lm,lc,lp⟩ := literals success
    cases (stored c_detail).mp member
    exact ⟨(literal_iff nm).mp ⟨lm,fits.1⟩,(literal_iff nc).mp ⟨lc,fits.2.1⟩,(literal_iff np).mp ⟨lp,fits.2.2⟩⟩
  · rintro ⟨rm,rc,rp⟩
    obtain ⟨lm,fm⟩ := (literal_iff nm).mpr rm
    obtain ⟨lc,fc⟩ := (literal_iff nc).mpr rc
    obtain ⟨lp,fp⟩ := (literal_iff np).mpr rp
    refine ⟨fun _ => ⟨_,(stored _).mpr rfl,⟨fm,fc,fp⟩,lm,lc,lp⟩,fun _ => ?_⟩
    have vm := ((number_numeral nm).mpr rm).1
    have vc := ((number_numeral nc).mpr rc).1
    have vp := ((number_numeral np).mpr rp).1
    rw [mailed]
    simp only [limitCrossed,Bool.or_eq_true,decide_eq_true_eq,gt_iff_lt,UInt64.lt_iff_toNat_lt]
    omega

/-- The numbers of an authorized report are kept exactly if every one of them is
    between zero and the greatest `int`. -/
theorem keeps_values_iff {authorized_clients : Clients} {inputs : List Completion} {s t : State} {task : Task}
    {client_key memory cpu processes str_time : Bytes} {m c p : Int} {c_config : ClientConfig}
    (ran : run step (start authorized_clients) inputs = some s) (key : separator ∉ client_key)
    (nm : integerValue memory = some m) (nc : integerValue cpu = some c) (np : integerValue processes = some p)
    (found : authorized_clients.lookup client_key = some c_config)
    (one : step s (.read (.data (line client_key memory cpu processes str_time)) task) = some t) :
    ∃ events, t.log = s.log ++ events ∧ (KeepsValues c_config m c p events ↔
      (0 ≤ m ∧ m ≤ 2147483647) ∧ (0 ≤ c ∧ c ≤ 2147483647) ∧ (0 ≤ p ∧ p ≤ 2147483647)) := by
  have parsed := parse_line key (separator_not_mem_numeral nm) (separator_not_mem_numeral nc) (separator_not_mem_numeral np) str_time
  exact ⟨_,log_of_read ran parsed one,keepsValues_respondTo nm nc np found task⟩

/-- A report of the mail test. -/
theorem keeps_values_test : ∃ t events, step (start testClients)
      (.read (.data (line (lit "mary") (lit "28") (lit "35") (lit "44") (lit "Sat Nov 26 18:31:34 2016"))) ⟨.async,.returned⟩) =
        some t ∧
    t.log = .do_read :: events ∧ KeepsValues ⟨lit "mary",lit "mary@mary.com",27,36,45⟩ 28 35 44 events := by
  obtain ⟨t,one⟩ := first_read testClients
    (.data (line (lit "mary") (lit "28") (lit "35") (lit "44") (lit "Sat Nov 26 18:31:34 2016"))) ⟨.async,.returned⟩
  have ran : run step (start testClients) [] = some (start testClients) := rfl
  have found : testClients.lookup (lit "mary") = some ⟨lit "mary",lit "mary@mary.com",27,36,45⟩ := by decide
  obtain ⟨events,logged,kept⟩ :=
    @keeps_values_iff testClients [] (start testClients) t _ _ _ _ _ _ 28 35 44 _ ran (by decide) rfl rfl rfl found one
  exact ⟨t,events,one,logged,kept.mpr (by decide)⟩

/-- A negative percentage is accepted with a literal of twenty digits. -/
theorem negative_number_wrapped : ¬ ∀ (chunk : Bytes) (task : Task) (events : List Event),
    chunk = line (lit "jill") (lit "-1") (lit "2") (lit "3") (lit "t") →
    on_read testClients (.data chunk) task = some (events,testClients) →
    KeepsValues ⟨lit "jill",lit "jill@jill.com",18,24,30⟩ (-1) 2 3 events := by
  intro always
  have found : testClients.lookup (lit "jill") = some ⟨lit "jill",lit "jill@jill.com",18,24,30⟩ := by decide
  have parsed := @parse_line (lit "jill") (lit "-1") (lit "2") (lit "3") (by decide) (by decide) (by decide) (by decide) (lit "t")
  have kept := always _ ⟨.async,.returned⟩ _ rfl (by rw [on_read_eq,respond,parsed]; rfl)
  have range := (@keepsValues_respondTo testClients (lit "jill") (lit "-1") (lit "2") (lit "3") _ (-1) 2 3 _ rfl rfl rfl found _).mp kept
  omega

/-! ## Which chunks are stored -/

/-- The report a chunk is meant to be. -/
def WellFormed (authorized_clients : Clients) (chunk : Bytes) : Prop :=
  ∃ client_key memory cpu processes str_time, chunk = line client_key memory cpu processes str_time ∧
    separator ∉ client_key ∧ is_client_authorized authorized_clients client_key = true ∧
    (∀ field ∈ [memory,cpu,processes], field ≠ [] ∧ ∀ c ∈ field, isDigit c = true) ∧
    separator ∉ str_time ∧ newline ∉ str_time.dropLast

/-- What is made of a chunk: its first five fields, whatever is in them. -/
def detailOf (chunk : Bytes) : ClientDetail :=
  let field i := (chunk.splitOn separator).getD i []
  ⟨field 0,number (field 1),number (field 2),number (field 3),(field 4).filter (· ≠ newline)⟩

theorem parse_detailOf {chunk : Bytes} (inRange : (parse_to_client_detail chunk).isSome) :
    parse_to_client_detail chunk = some (detailOf chunk) := by
  have many := (parse_isSome_iff chunk).mp inRange
  have fields := length_splitOn separator chunk
  rcases split : chunk.splitOn separator with _ | ⟨f0,_ | ⟨f1,_ | ⟨f2,_ | ⟨f3,_ | ⟨f4,rest⟩⟩⟩⟩⟩
  case cons.cons.cons.cons.cons => simp [parse_to_client_detail,detailOf,number,split]
  all_goals
    rw [split] at fields
    simp only [List.length_cons,List.length_nil] at fields
    omega

/-- A chunk is stored and acknowledged exactly if its first field is a key of the
    map; what is stored are its first five fields as far as they can be read. -/
theorem accepts_authorized {authorized_clients : Clients} {inputs : List Completion} {s t : State} {chunk : Bytes} {task : Task}
    (ran : run step (start authorized_clients) inputs = some s) (inRange : (parse_to_client_detail chunk).isSome)
    (one : step s (.read (.data chunk) task) = some t) :
    ∃ events, t.log = s.log ++ events ∧
      (is_client_authorized authorized_clients (firstField separator chunk) = true →
        .do_write .READ_SUCCESS ∈ events ∧ (∀ c_detail, .write_to_db c_detail ∈ events ↔ c_detail = detailOf chunk) ∧
        ∀ insert_SQL execution, .execute insert_SQL execution ∈ events ↔
          task.launch = .async ∧ insert_SQL = generate_insert_str_for (detailOf chunk) ∧ execution = task.execution) ∧
      (is_client_authorized authorized_clients (firstField separator chunk) = false → events = [.do_write .NOT_AUTHORIZED]) := by
  have parsed := parse_detailOf inRange
  rw [← parse_client_key parsed]
  refine ⟨_,log_of_read ran parsed one,?_,?_⟩
  · intro authorized
    obtain ⟨c_config,found⟩ := authorized_lookup authorized
    obtain ⟨success,stored,_⟩ := mem_respondTo found task
    exact ⟨success,stored,execute_mem_respondTo found task⟩
  · intro refused
    have missing : authorized_clients.lookup (detailOf chunk).client_key = none := by simpa [is_client_authorized] using refused
    unfold respondTo
    rw [missing]

theorem accepts_authorized_test : ∃ t events,
    step (start testClients) (.read (.data testReport) ⟨.async,.returned⟩) = some t ∧ t.log = .do_read :: events ∧
    .do_write .READ_SUCCESS ∈ events ∧ .write_to_db (detailOf testReport) ∈ events := by
  obtain ⟨t,one⟩ := first_read testClients (.data testReport) ⟨.async,.returned⟩
  have ran : run step (start testClients) [] = some (start testClients) := rfl
  obtain ⟨events,logged,granted,_⟩ := accepts_authorized ran (by decide) one
  obtain ⟨success,stored,_⟩ := granted (by decide)
  exact ⟨t,events,one,logged,success,(stored _).mpr rfl⟩

/-- Letters and an empty field in the place of numbers are stored as zeros. -/
theorem garbage_accepted : ¬ ∀ (chunk : Bytes) (task : Task) (events : List Event),
    (parse_to_client_detail chunk).isSome → on_read testClients (.data chunk) task = some (events,testClients) →
    ((∃ insert_SQL execution, .execute insert_SQL execution ∈ events) ∨ .do_write .READ_SUCCESS ∈ events) →
    WellFormed testClients chunk := by
  intro always
  have parsed : parse_to_client_detail (lit "jill|abc||5x|t") = some ⟨lit "jill",0,0,5,lit "t"⟩ := by decide
  have found : testClients.lookup (lit "jill") = some ⟨lit "jill",lit "jill@jill.com",18,24,30⟩ := by decide
  have accepted := (@mem_respondTo testClients ⟨lit "jill",0,0,5,lit "t"⟩ _ found ⟨.async,.returned⟩).1
  obtain ⟨client_key,memory,cpu,processes,str_time,same,key,_,numbers,_,_⟩ :=
    always _ ⟨.async,.returned⟩ _ (by rw [parsed]; rfl) (by rw [on_read_eq,respond,parsed]; rfl) (.inr accepted)
  have digits : ∀ field ∈ [memory,cpu,processes], separator ∉ field := by
    intro field member inside
    exact absurd ((numbers field member).2 separator inside) (by decide)
  have fields := congrArg (List.splitOn separator) same
  unfold line at fields
  rw [List.splitOn_append_cons_self_of_not_mem key,List.splitOn_append_cons_self_of_not_mem (digits memory (by simp))] at fields
  have second : memory = lit "abc" := by
    have head : (lit "jill|abc||5x|t").splitOn separator = [lit "jill",lit "abc",[],lit "5x",lit "t"] := by decide
    rw [head] at fields
    exact (List.cons.inj (List.cons.inj fields).2).1.symm
  exact absurd ((numbers memory (by simp)).2 97 (by rw [second]; decide)) (by decide)

end SysInfo.Reports
