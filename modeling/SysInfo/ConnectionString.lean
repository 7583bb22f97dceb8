import SysInfo.Conninfo
import SysInfo.PropertyTree

/-!
# The connection string

`get_connection_string` and what libpq reads in its result.
-/

namespace SysInfo.ConnectionString
open SysInfo.Text SysInfo.PropertyTree SysInfo.Conninfo

variable (boost : Boost)

/-- The function on the tree that `read_xml` made of the file. -/
def get_connection_string (pt : Ptree) : Option Bytes := do
  let dbname ← get_string boost pt (lit "db_settings.dbname")
  let user ← get_string boost pt (lit "db_settings.user")
  let password ← get_string boost pt (lit "db_settings.password")
  let hostaddr ← get_string boost pt (lit "db_settings.hostaddr")
  let port ← get_string boost pt (lit "db_settings.port")
  return lit "dbname=" ++ dbname ++ lit " user=" ++ user ++ lit " password=" ++ password ++ lit " hostaddr=" ++ hostaddr ++
    lit " port=" ++ port

/-- The values in `db_settings.xml`. -/
structure Settings where
  dbname : Bytes
  user : Bytes
  password : Bytes
  hostaddr : Bytes
  port : Bytes

def Settings.items (settings : Settings) : List Setting :=
  [(lit "dbname",settings.dbname),(lit "user",settings.user),(lit "password",settings.password),
    (lit "hostaddr",settings.hostaddr),(lit "port",settings.port)]

/-- The tree has these values. -/
structure Holds (pt : Ptree) (settings : Settings) : Prop where
  dbname : get_string boost pt (lit "db_settings.dbname") = some settings.dbname
  user : get_string boost pt (lit "db_settings.user") = some settings.user
  password : get_string boost pt (lit "db_settings.password") = some settings.password
  hostaddr : get_string boost pt (lit "db_settings.hostaddr") = some settings.hostaddr
  port : get_string boost pt (lit "db_settings.port") = some settings.port

/-- No value needs the protection of quotes, and only the port may be missing. -/
def Plain (settings : Settings) : Prop :=
  (∀ value ∈ [settings.dbname,settings.user,settings.password,settings.hostaddr,settings.port],
    (∀ c ∈ value, isSpace c = false ∧ c ≠ backslash) ∧ value.head? ≠ some quote) ∧
  settings.dbname ≠ [] ∧ settings.user ≠ [] ∧ settings.password ≠ [] ∧ settings.hostaddr ≠ []

/-- libpq accepts the string and takes every keyword to have its value. -/
def Assigns (known : Bytes → Bool) (text : Bytes) (settings : Settings) : Prop :=
  ∃ assigned, parse known text = some assigned ∧ ∀ item ∈ settings.items, valueOf assigned item.1 = some item.2

variable {boost}

/-- The string is the five settings in this order, with nothing protected. -/
theorem get_connection_string_eq {pt : Ptree} {settings : Settings} (values : Holds boost pt settings) :
    get_connection_string boost pt = some (write settings.items) := by
  have pieces : lit "dbname=" = lit "dbname" ++ [equals] ∧ lit " user=" = blank :: (lit "user" ++ [equals]) ∧
      lit " password=" = blank :: (lit "password" ++ [equals]) ∧ lit " hostaddr=" = blank :: (lit "hostaddr" ++ [equals]) ∧
      lit " port=" = blank :: (lit "port" ++ [equals]) := by decide
  obtain ⟨dbname,user,password,hostaddr,port⟩ := pieces
  simp [get_connection_string,values.dbname,values.user,values.password,values.hostaddr,values.port,dbname,user,password,
    hostaddr,port,write,writeSetting,Settings.items]

def keywords : List Bytes := [lit "dbname",lit "user",lit "password",lit "hostaddr",lit "port"]

theorem keywords_items (settings : Settings) : settings.items.map Prod.fst = keywords := rfl

/-- The string assigns the configured settings exactly if they are plain. -/
theorem assigns_iff_plain {known : Bytes → Bool} (valid : ∀ keyword ∈ keywords, known keyword = true)
    {pt : Ptree} {settings : Settings} (values : Holds boost pt settings) :
    ∃ text, get_connection_string boost pt = some text ∧ (Assigns known text settings ↔ Plain settings) := by
  refine ⟨_,get_connection_string_eq values,?_⟩
  have names : ∀ item ∈ settings.items, item.1 ∈ keywords := by
    intro item member
    rw [← keywords_items settings]
    exact List.mem_map.mpr ⟨item,member,rfl⟩
  have clean : ∀ name ∈ keywords, ∀ c ∈ name, isSpace c = false ∧ c ≠ equals := by decide +kernel
  have distinct : (settings.items.map Prod.fst).Nodup := by
    rw [keywords_items]
    decide
  refine (read_write_iff (List.cons_ne_nil _ _) (fun item member => clean _ (names item member))
    (fun item member => valid _ (names item member)) distinct).trans ?_
  simp only [Plain,Tame,List.dropLast,List.mem_cons,List.not_mem_nil,or_false,forall_eq_or_imp,forall_eq]

/-- The tree of `test/resources/db_settings.xml`. -/
def testSettings : Ptree :=
  .node [] [(lit "db_settings",.node [] [(lit "dbname",leaf "hector"),(lit "user",leaf "mkts"),
    (lit "password",leaf "password"),(lit "hostaddr",leaf "192.6.6.6"),(lit "port",leaf "1111")])]

theorem assigns_test_settings : ∃ text, get_connection_string firstChild testSettings = some text ∧
    Assigns keywords.contains text ⟨lit "hector",lit "mkts",lit "password",lit "192.6.6.6",lit "1111"⟩ := by
  have values : Holds firstChild testSettings
      ⟨lit "hector",lit "mkts",lit "password",lit "192.6.6.6",lit "1111"⟩ := ⟨rfl,rfl,rfl,rfl,rfl⟩
  have valid : ∀ keyword ∈ keywords, keywords.contains keyword = true := by decide +kernel
  obtain ⟨text,built,assigns⟩ := assigns_iff_plain valid values
  exact ⟨text,built,assigns.mpr ⟨by decide +kernel,by decide⟩⟩

example : get_connection_string firstChild testSettings =
    some (lit "dbname=hector user=mkts password=password hostaddr=192.6.6.6 port=1111") := by decide +kernel

end SysInfo.ConnectionString
