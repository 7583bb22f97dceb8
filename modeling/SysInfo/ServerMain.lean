import SysInfo.AuthorizedClients
import SysInfo.ConnectionString
import SysInfo.Server

/-!
# The server program

`main` of `server_main.cpp` up to the service object: its arguments and its files, and
the port that the acceptor is given.
-/

namespace SysInfo.ServerMain
open SysInfo.Text SysInfo.Transition SysInfo.Utils SysInfo.PropertyTree SysInfo.AuthorizedClients SysInfo.ConnectionString

/-! ## The endpoint -/

/-- A `tcp::endpoint` of `tcp::v4()`; a port is 16 bits wide. -/
structure Endpoint where
  port : UInt16
  deriving DecidableEq

/-- `tcp::endpoint(tcp::v4(), port)`: the `int` becomes an `unsigned short`. -/
def endpoint (port : Int32) : Endpoint := ⟨port.toInt16.toUInt16⟩

/-- The endpoint keeps the port modulo the width of a port. -/
theorem endpoint_port (port : Int32) : ((endpoint port).port.toNat : Int) = port.toInt % 65536 := by
  have narrow : port.toInt16.toBitVec.toInt = port.toInt.bmod (2 ^ 16) := Int32.toInt_toInt16 port
  have small := port.toInt16.toBitVec.isLt
  rw [BitVec.toInt_eq_toNat_bmod] at narrow
  have same : ((endpoint port).port.toNat : Int) = (port.toInt16.toBitVec.toNat : Int) := rfl
  have residue := @Int.bmod_emod port.toInt 65536
  have residue' := @Int.bmod_emod (port.toInt16.toBitVec.toNat : Int) 65536
  rw [same]
  simp only [Nat.reducePow] at narrow small residue residue'
  omega

/-- What the constructor of `sys_info_server` makes: an acceptor, and the server whose
    first accept is in flight. -/
structure Listening where
  acceptor : Endpoint
  server : Server.State

def sys_info_server (port : Int32) (authorized_clients : Clients) : Listening :=
  ⟨endpoint port,Server.start authorized_clients⟩

/-- `server_service::start_server`. -/
def start_server (port : Int32) (authorized_clients : Clients) : Listening := sys_info_server port authorized_clients

/-! ## The arguments -/

/-- Why `main` returns 1. -/
inductive Rejection where
  | usage
  | not_a_valid_port
  /-- The handler of `std::exception`. -/
  | exception
  deriving DecidableEq

/-- The files as `read_xml` parses them, and whether the database takes a connection
    with a connection string. -/
structure Environment where
  boost : Boost
  read_xml : Bytes → Option Ptree
  connects : Bytes → Bool

variable (env : Environment)

/-- The map and the connection of `main`; `none` where one of the calls throws. -/
def load (server_config db_settings : Bytes) : Option (Clients × Bytes) := do
  let authorized_clients_and_details ← get_authorized_clients_and_details env.boost (← env.read_xml server_config)
  let connection_string ← get_connection_string env.boost (← env.read_xml db_settings)
  if env.connects connection_string then return (authorized_clients_and_details,connection_string) else none

/-- `main` up to `start_server`. -/
def main_start : List Bytes → Except Rejection Listening
  | [_,port,server_config,db_settings] =>
    if atoi port = 0 then .error .not_a_valid_port
    else
      match load env server_config db_settings with
      | some (authorized_clients_and_details,_) => .ok (start_server (atoi port) authorized_clients_and_details)
      | none => .error .exception
  | _ => .error .usage

variable {env}

theorem main_start_ok_iff {program typed server_config db_settings : Bytes} {listening : Listening} :
    main_start env [program,typed,server_config,db_settings] = .ok listening ↔ atoi typed ≠ 0 ∧
      ∃ authorized_clients connection_string, load env server_config db_settings = some (authorized_clients,connection_string) ∧
        start_server (atoi typed) authorized_clients = listening := by
  by_cases zero : atoi typed = 0
  · simp [main_start,zero]
  · cases loaded : load env server_config db_settings with
    | none => simp [main_start,zero,loaded]
    | some settings =>
      obtain ⟨authorized_clients,connection_string⟩ := settings
      simp [main_start,zero,loaded]

/-! ## The port -/

/-- Where the program listens, it listens on the port that the argument denotes. -/
def ListensAsTyped (typed : Bytes) (result : Except Rejection Listening) : Prop :=
  ∀ listening, result = .ok listening →
    ∃ n, integerValue typed = some n ∧ 1 ≤ n ∧ n ≤ 65535 ∧ (listening.acceptor.port.toNat : Int) = n

/-- The `int` of the text is zero, whether or not the text says so. -/
def ReadsZero (typed : Bytes) : Prop :=
  leadingValue typed ≤ -9223372036854775808 ∨ (leadingValue typed < 9223372036854775807 ∧ 4294967296 ∣ leadingValue typed)

/-- The text is the numeral of a port. -/
def IsPort (typed : Bytes) : Prop := ∃ n, integerValue typed = some n ∧ 1 ≤ n ∧ n ≤ 65535

theorem endpoint_of_numeral {typed : Bytes} {n : Int} (numeral : integerValue typed = some n) (low : 1 ≤ n) (high : n ≤ 65535) :
    ((endpoint (atoi typed)).port.toNat : Int) = n := by
  have same := @Int.bmod_emod n 4294967296
  have whole : saturate n = n := by unfold saturate; omega
  rw [endpoint_port,atoi_toInt,leadingValue_numeral numeral,whole]
  omega

/-- The program rejects its argument or listens on the port that it denotes exactly for
    the numerals of ports and for what `atoi` takes for zero, unless the settings do not load. -/
theorem listens_as_typed_iff (env : Environment) (program typed server_config db_settings : Bytes) :
    ListensAsTyped typed (main_start env [program,typed,server_config,db_settings]) ↔
      ReadsZero typed ∨ IsPort typed ∨ load env server_config db_settings = none := by
  constructor
  · intro listens
    by_cases zero : atoi typed = 0
    · exact .inl ((atoi_eq_zero_iff typed).mp zero)
    · cases loaded : load env server_config db_settings with
      | none => exact .inr (.inr rfl)
      | some settings =>
        obtain ⟨n,numeral,low,high,_⟩ := listens _ (main_start_ok_iff.mpr ⟨zero,_,_,loaded,rfl⟩)
        exact .inr (.inl ⟨n,numeral,low,high⟩)
  · intro accepted listening started
    obtain ⟨nonzero,authorized_clients,connection_string,loaded,rfl⟩ := main_start_ok_iff.mp started
    rcases accepted with zero | ⟨n,numeral,low,high⟩ | missing
    · exact absurd ((atoi_eq_zero_iff typed).mpr zero) nonzero
    · exact ⟨n,numeral,low,high,endpoint_of_numeral numeral low high⟩
    · rw [missing] at loaded
      cases loaded

/-- The files of `test/resources`, and a database that takes every connection. -/
def testEnvironment : Environment where
  boost := firstChild
  read_xml file := if file = lit "server_config.xml" then some testTree
    else if file = lit "db_settings.xml" then some testSettings else none
  connects _ := true

/-- A port above 65535 is taken for another one, here for port 80. -/
theorem port_wrapped : ¬ ∀ typed, ListensAsTyped typed
    (main_start testEnvironment [lit "sys_info_server",typed,lit "server_config.xml",lit "db_settings.xml"]) := by
  intro always
  have loaded : (load testEnvironment (lit "server_config.xml") (lit "db_settings.xml")).isSome := by decide +kernel
  obtain ⟨⟨authorized_clients,connection_string⟩,loaded⟩ := Option.isSome_iff_exists.mp loaded
  have nonzero : atoi (lit "65616") ≠ 0 := by decide
  have value : integerValue (lit "65616") = some 65616 := by decide
  obtain ⟨n,numeral,_,high,_⟩ := always (lit "65616") _ (main_start_ok_iff.mpr ⟨nonzero,_,_,loaded,rfl⟩)
  rw [value] at numeral
  cases numeral
  omega

example : endpoint (atoi (lit "65616")) = ⟨80⟩ := by decide

/-! ## Whether the program starts -/

/-- The program has started to listen. -/
def Serves (env : Environment) (binds : Endpoint → Bool) (argv : List Bytes) : Prop :=
  ∃ listening, main_start env argv = .ok listening ∧ binds listening.acceptor = true

/-- Its endpoint is taken. -/
def Taken (env : Environment) (binds : Endpoint → Bool) (argv : List Bytes) : Prop :=
  ∃ listening, main_start env argv = .ok listening ∧ binds listening.acceptor = false

/-- An argument vector for which nothing is started. -/
def Rejected (env : Environment) (argv : List Bytes) : Prop :=
  argv.length ≠ 4 ∨ ∃ program typed server_config db_settings, argv = [program,typed,server_config,db_settings] ∧
    (atoi typed = 0 ∨ load env server_config db_settings = none)

theorem rejected_iff (env : Environment) (argv : List Bytes) :
    (∃ rejection, main_start env argv = .error rejection) ↔ Rejected env argv := by
  constructor
  · rintro ⟨rejection,started⟩
    by_cases four : argv.length = 4
    · obtain ⟨program,typed,server_config,db_settings,rfl⟩ := List.length_eq_four.mp four
      refine .inr ⟨program,typed,server_config,db_settings,rfl,?_⟩
      by_cases zero : atoi typed = 0
      · exact .inl zero
      · right
        cases loaded : load env server_config db_settings with
        | none => rfl
        | some settings => simp [main_start,zero,loaded] at started
    · exact .inl four
  · rintro (other | ⟨program,typed,server_config,db_settings,rfl,bad⟩)
    · refine ⟨.usage,?_⟩
      unfold main_start
      split
      · simp at other
      · rfl
    · by_cases zero : atoi typed = 0
      · exact ⟨.not_a_valid_port,by simp [main_start,zero]⟩
      · exact ⟨.exception,by simp [main_start,zero,bad.resolve_left zero]⟩

end SysInfo.ServerMain
