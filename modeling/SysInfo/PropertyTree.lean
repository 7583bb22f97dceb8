import SysInfo.Text

/-!
# Property trees

`boost::property_tree` as far as `utils.cpp` uses it on the trees that `read_xml`
makes of the configuration files.
-/

namespace SysInfo.PropertyTree
open SysInfo.Text

/-- `boost::property_tree::ptree`: the text of a node and its named children in
    document order. -/
inductive Ptree where
  | node (data : Bytes) (children : List (Bytes × Ptree))

def Ptree.data : Ptree → Bytes
  | .node data _ => data

def Ptree.children : Ptree → List (Bytes × Ptree)
  | .node _ children => children

/-- Boost's lookups and conversions as far as they are documented: of several
    children with one name any may be found, and a text converts to `size_t` or
    it does not. -/
structure Boost where
  find : Bytes → List (Bytes × Ptree) → Option Ptree
  find_mem : ∀ {name children child}, find name children = some child → (name,child) ∈ children
  find_isSome : ∀ {name children child}, (name,child) ∈ children → (find name children).isSome
  to_size_t : Bytes → Option UInt64

/-- The byte `.` between the names of a path. -/
def dot : Byte := 46

variable (boost : Boost)

/-- `none` where `get_child` throws. -/
def get_child (pt : Ptree) (path : Bytes) : Option Ptree :=
  (path.splitOn dot).foldlM (fun node name => boost.find name node.children) pt

def get_string (pt : Ptree) (path : Bytes) : Option Bytes := (get_child boost pt path).map Ptree.data

def get_size_t (pt : Ptree) (path : Bytes) : Option UInt64 := (get_string boost pt path).bind boost.to_size_t

variable {boost}

/-- A path of one name is looked up among the children. -/
theorem get_child_of_not_mem {path : Bytes} (plain : dot ∉ path) (pt : Ptree) :
    get_child boost pt path = boost.find path pt.children := by
  rw [get_child,List.splitOn_eq_singleton plain]
  simp

/-- `get_child` throws exactly where no child has the name. -/
theorem get_child_eq_none_iff {path : Bytes} (plain : dot ∉ path) {pt : Ptree} :
    get_child boost pt path = none ↔ ∀ child, (path,child) ∉ pt.children := by
  rw [get_child_of_not_mem plain]
  constructor
  · intro missing child member
    have found := boost.find_isSome member
    rw [missing] at found
    cases found
  · intro absent
    cases found : boost.find path pt.children with
    | none => rfl
    | some child => exact absurd (boost.find_mem found) (absent child)

/-- Boost with the first child of a name and numerals of digits alone. -/
def firstChild : Boost where
  find name children := (children.find? fun child => child.1 = name).map Prod.snd
  find_mem := by
    intro name children child found
    obtain ⟨⟨named,node⟩,first,rfl⟩ := Option.map_eq_some_iff.mp found
    have same := List.find?_some first
    simp only [decide_eq_true_eq] at same
    subst same
    exact List.mem_of_find?_eq_some first
  find_isSome := by
    intro name children child member
    rw [Option.isSome_map,List.find?_isSome]
    exact ⟨_,member,by simp⟩
  to_size_t text :=
    if text ≠ [] ∧ text.all isDigit ∧ decimalValue text < 18446744073709551616 then some (decimalValue text).toUInt64
    else none

/-- A node without children. -/
def leaf (data : String) : Ptree := .node (lit data) []

end SysInfo.PropertyTree
