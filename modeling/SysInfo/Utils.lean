import Mathlib.Data.Finmap
import SysInfo.Separated
import SysInfo.Text

/-!
# The functions of `utils.cpp` on reports

Parsing a report line, testing its key, printing its INSERT statement and
comparing it with the limits of its client.
-/

namespace SysInfo.Utils
open SysInfo.Text SysInfo.Separated

/-- `struct client_config`; `size_t` is 64 bits wide. -/
structure ClientConfig where
  client_key : Bytes
  email : Bytes
  memory_limit : UInt64
  cpu_limit : UInt64
  processes_limit : UInt64
  deriving DecidableEq

/-- The value-initialised structure that `std::map::operator[]` inserts. -/
instance : Inhabited ClientConfig := ⟨⟨[],[],0,0,0⟩⟩

/-- `struct client_detail`. -/
structure ClientDetail where
  client_key : Bytes
  curr_memory_pct : UInt64
  curr_cpu_pct : UInt64
  curr_processes_cnt : UInt64
  str_dt_time : Bytes
  deriving DecidableEq

/-- `std::map<std::string, client_config>`. -/
abbrev Clients := Finmap fun _ : Bytes => ClientConfig

/-- The byte `|` between the fields of a report. -/
def separator : Byte := 124
def newline : Byte := 10

def is_client_authorized (authorized_clients : Clients) (client_key : Bytes) : Bool :=
  (authorized_clients.lookup client_key).isSome

/-- `std::map::operator[]`: the entry, and the map with a default entry where
    there was none. -/
def subscript (authorized_clients : Clients) (client_key : Bytes) : ClientConfig × Clients :=
  match authorized_clients.lookup client_key with
  | some c_config => (c_config,authorized_clients)
  | none => (default,authorized_clients.insert client_key default)

/-- `std::to_string` of an `int`. -/
def to_string_int (value : Int) : Bytes := if value < 0 then 45 :: decimal value.natAbs else decimal value.toNat

/-- The line, given the numbers that were drawn and the text of the time. -/
def generate_random_sys_info_data (client_key : Bytes) (memory_percentage cpu_percentage no_of_processes : Int)
    (str_time : Bytes) : Bytes :=
  client_key ++ lit "|" ++ to_string_int memory_percentage ++ lit "|" ++ to_string_int cpu_percentage ++ lit "|" ++
    to_string_int no_of_processes ++ lit "|" ++ str_time

/-- `none` where `info[i]` would read past the fields that `boost::split` made. -/
def parse_to_client_detail (str_client_info : Bytes) : Option ClientDetail := do
  let info := str_client_info.splitOn separator
  let client_key ← info[0]?
  let curr_memory_pct := sizeOfInt (atoi (cString (← info[1]?)))
  let curr_cpu_pct := sizeOfInt (atoi (cString (← info[2]?)))
  let curr_processes_cnt := sizeOfInt (atoi (cString (← info[3]?)))
  let str_dt_time := (← info[4]?).filter (· ≠ newline)
  return { client_key, curr_memory_pct, curr_cpu_pct, curr_processes_cnt, str_dt_time }

/-- `std::to_string` of a `size_t`. -/
def to_string (value : UInt64) : Bytes := decimal value.toNat

/-- The overload with a table name. -/
def generate_insert_str_for_table (c_detail : ClientDetail) (table_name : Bytes) : Bytes :=
  lit "INSERT INTO " ++ table_name ++ lit " (CLIENT_KEY, MEMORY_PCT, CPU_PCT, NO_PROCESSES, DT_TIME) VALUES ('" ++
    c_detail.client_key ++ lit "', " ++ to_string c_detail.curr_memory_pct ++ lit ", " ++
    to_string c_detail.curr_cpu_pct ++ lit ", " ++ to_string c_detail.curr_processes_cnt ++ lit ", '" ++
    c_detail.str_dt_time ++ lit "');"

def generate_insert_str_for (c_detail : ClientDetail) : Bytes :=
  generate_insert_str_for_table c_detail (lit "CLIENT_INFO")

/-- A reported number exceeds its limit, compared as `size_t`. -/
def limitCrossed (c_config : ClientConfig) (c_detail : ClientDetail) : Bool :=
  c_detail.curr_memory_pct > c_config.memory_limit || c_detail.curr_cpu_pct > c_config.cpu_limit ||
    c_detail.curr_processes_cnt > c_config.processes_limit

/-- The answer, and the shared map after the lookup. -/
def should_send_email (authorized_clients : Clients) (client_key : Bytes) (c_detail : ClientDetail) : Bool × Clients :=
  let (c_config,authorized_clients) := subscript authorized_clients client_key
  (limitCrossed c_config c_detail,authorized_clients)

/-- The map of `test/resources/server_config.xml`. -/
def testClients : Clients :=
  ((∅ : Clients).insert (lit "jack") ⟨lit "jack",lit "jack@jack.com",24,32,40⟩
    |>.insert (lit "jill") ⟨lit "jill",lit "jill@jill.com",18,24,30⟩)
    |>.insert (lit "mary") ⟨lit "mary",lit "mary@mary.com",27,36,45⟩

/-- The first line of the server and client test. -/
def testReport : Bytes := lit "jill|44|89|11|Sat Nov 26 17:25:44 2016"

/-! ## Parsing -/

/-- The five reads `info[0]` to `info[4]` stay inside the fields exactly when
    the text holds four separators. -/
theorem parse_isSome_iff (text : Bytes) : (parse_to_client_detail text).isSome ↔ 4 ≤ text.count separator := by
  have fields := length_splitOn separator text
  constructor
  · intro parsed
    by_contra few
    have outside : (text.splitOn separator)[4]? = none := List.getElem?_eq_none (by omega)
    simp [parse_to_client_detail,outside] at parsed
  · intro many
    have inside : ∀ i, i ≤ 4 → ∃ field, (text.splitOn separator)[i]? = some field :=
      fun i le => ⟨_,List.getElem?_eq_getElem (by omega)⟩
    obtain ⟨f0,h0⟩ := inside 0 (by omega)
    obtain ⟨f1,h1⟩ := inside 1 (by omega)
    obtain ⟨f2,h2⟩ := inside 2 (by omega)
    obtain ⟨f3,h3⟩ := inside 3 (by omega)
    obtain ⟨f4,h4⟩ := inside 4 (by omega)
    simp [parse_to_client_detail,h0,h1,h2,h3,h4]

/-- The key of a parsed report is the text before its first separator. -/
theorem parse_client_key {text : Bytes} {c_detail : ClientDetail} (parsed : parse_to_client_detail text = some c_detail) :
    c_detail.client_key = firstField separator text := by
  simp only [parse_to_client_detail,splitOn_zero,Option.bind_eq_bind,Option.bind_some] at parsed
  obtain ⟨f1,_,parsed⟩ := Option.bind_eq_some_iff.mp parsed
  obtain ⟨f2,_,parsed⟩ := Option.bind_eq_some_iff.mp parsed
  obtain ⟨f3,_,parsed⟩ := Option.bind_eq_some_iff.mp parsed
  obtain ⟨f4,_,parsed⟩ := Option.bind_eq_some_iff.mp parsed
  cases Option.some.inj parsed
  rfl

example : parse_to_client_detail (lit "xxx|16|88|25|Sat Nov 26 18:31:34 2016\n") =
    some ⟨lit "xxx",16,88,25,lit "Sat Nov 26 18:31:34 2016"⟩ := by decide

/-! ## The shared map -/

theorem authorized_lookup {authorized_clients : Clients} {client_key : Bytes}
    (authorized : is_client_authorized authorized_clients client_key = true) :
    ∃ c_config, authorized_clients.lookup client_key = some c_config :=
  Option.isSome_iff_exists.mp authorized

/-- The lookup of an authorized key inserts nothing. -/
theorem should_send_email_of_lookup {authorized_clients : Clients} {client_key : Bytes} {c_config : ClientConfig}
    (found : authorized_clients.lookup client_key = some c_config) (c_detail : ClientDetail) :
    should_send_email authorized_clients client_key c_detail = (limitCrossed c_config c_detail,authorized_clients) := by
  simp [should_send_email,subscript,found]

end SysInfo.Utils
