import Mathlib.Algebra.GroupWithZero.Nat
import Mathlib.Algebra.Order.BigOperators.Group.List
import Mathlib.Algebra.Order.Group.Nat
import Mathlib.Data.List.Nodup
import Mathlib.Data.List.Perm.Subperm
import SysInfo.Text
import SysInfo.Transition

/-!
# Connection strings

The keyword and value strings of libpq: a reader that follows its rules for
blanks, quotes and backslashes, and a writer that joins `keyword=value` settings
with blanks and protects nothing. What the writer prints is read as what was
meant exactly when no value needs protection. Any other reading is paid for in
bytes: a skipped blank, a quote and a backslash belong to no setting, and the
writer leaves nothing to spare.
-/

namespace SysInfo.Conninfo
open SysInfo.Text SysInfo.Transition

def equals : Byte := 61
def quote : Byte := 39
def backslash : Byte := 92
def blank : Byte := 32

abbrev Setting := Bytes × Bytes

/-! ## Reading -/

/-- What the reader is at, with the keyword and the value it has so far. -/
inductive Mode where
  | between
  | keyword (name : Bytes)
  | afterKeyword (name : Bytes)
  | beforeValue (name : Bytes)
  | unquoted (name value : Bytes)
  | escape (name value : Bytes)
  | quoted (name value : Bytes)
  | quotedEscape (name value : Bytes)
  deriving DecidableEq

structure State where
  settings : List Setting
  mode : Mode
  deriving DecidableEq

variable (known : Bytes → Bool)

/-- Recording a setting; an unknown keyword makes the whole string fail. -/
def store (settings : List Setting) (name value : Bytes) : Option (List Setting) :=
  if known name then some (settings ++ [(name,value)]) else none

def next (s : State) (c : Byte) : Option State :=
  match s.mode with
  | .between =>
    if isSpace c then some s
    else if c = equals then some ⟨s.settings,.beforeValue []⟩
    else some ⟨s.settings,.keyword [c]⟩
  | .keyword name =>
    if isSpace c then some ⟨s.settings,.afterKeyword name⟩
    else if c = equals then some ⟨s.settings,.beforeValue name⟩
    else some ⟨s.settings,.keyword (name ++ [c])⟩
  | .afterKeyword name =>
    if isSpace c then some s
    else if c = equals then some ⟨s.settings,.beforeValue name⟩
    else none
  | .beforeValue name =>
    if isSpace c then some s
    else if c = quote then some ⟨s.settings,.quoted name []⟩
    else if c = backslash then some ⟨s.settings,.escape name []⟩
    else some ⟨s.settings,.unquoted name [c]⟩
  | .unquoted name value =>
    if isSpace c then (store known s.settings name value).map fun settings => ⟨settings,.between⟩
    else if c = backslash then some ⟨s.settings,.escape name value⟩
    else some ⟨s.settings,.unquoted name (value ++ [c])⟩
  | .escape name value => some ⟨s.settings,.unquoted name (value ++ [c])⟩
  | .quoted name value =>
    if c = quote then (store known s.settings name value).map fun settings => ⟨settings,.between⟩
    else if c = backslash then some ⟨s.settings,.quotedEscape name value⟩
    else some ⟨s.settings,.quoted name (value ++ [c])⟩
  | .quotedEscape name value => some ⟨s.settings,.quoted name (value ++ [c])⟩

/-- The end of the string. -/
def finish (s : State) : Option (List Setting) :=
  match s.mode with
  | .between => some s.settings
  | .beforeValue name => store known s.settings name []
  | .unquoted name value => store known s.settings name value
  | .escape name value => store known s.settings name value
  | _ => none

/-- The settings in their order; `none` where the string is refused. -/
def parse (text : Bytes) : Option (List Setting) := do finish known (← run (next known) ⟨[],.between⟩ text)

/-- The value of a keyword is the last one set. -/
def valueOf (settings : List Setting) (name : Bytes) : Option Bytes := settings.reverse.lookup name

/-! ## Writing -/

def writeSetting (setting : Setting) : Bytes := setting.1 ++ equals :: setting.2

/-- The settings as they are, with a blank between them. -/
def write : List Setting → Bytes
  | [] => []
  | [setting] => writeSetting setting
  | setting :: rest => writeSetting setting ++ blank :: write rest

/-- A keyword of the writer. -/
def Keyword (name : Bytes) : Prop := ∀ c ∈ name, isSpace c = false ∧ c ≠ equals

/-- A value that needs no protection. -/
def Tame (value : Bytes) : Prop := (∀ c ∈ value, isSpace c = false ∧ c ≠ backslash) ∧ value.head? ≠ some quote

/-- What a string with nothing to spare takes for a setting and the blank after it. -/
def cost (setting : Setting) : Nat := setting.1.length + setting.2.length + 2

theorem length_write {settings : List Setting} (nonempty : settings ≠ []) :
    (write settings).length + 1 = (settings.map cost).sum := by
  induction settings with
  | nil => contradiction
  | cons setting rest ih =>
    cases rest with
    | nil =>
      simp only [write,writeSetting,cost,List.length_append,List.length_cons,List.map_cons,List.map_nil,List.sum_cons,
        List.sum_nil]
      omega
    | cons other rest =>
      have tail := ih (List.cons_ne_nil other rest)
      simp only [write,writeSetting,cost,List.length_append,List.length_cons,List.map_cons,List.sum_cons] at tail ⊢
      omega

theorem writeSetting_injective {first second : Setting} (clean : Keyword first.1) (clean' : Keyword second.1)
    (same : writeSetting first = writeSetting second) : first = second := by
  have cut : ∀ {setting : Setting}, Keyword setting.1 → (writeSetting setting).takeWhile (· ≠ equals) = setting.1 := by
    intro setting clean
    rw [writeSetting,List.takeWhile_append_of_pos]
    · simp
    · intro c member
      exact decide_eq_true (clean c member).2
  have names : first.1 = second.1 := by rw [← cut clean,← cut clean',same]
  unfold writeSetting at same
  rw [names] at same
  exact Prod.ext names (List.cons.inj (List.append_cancel_left same)).2

theorem written_injective : ∀ {first second : List Setting}, (∀ setting ∈ first, Keyword setting.1) →
    (∀ setting ∈ second, Keyword setting.1) → first.map writeSetting = second.map writeSetting → first = second
  | [], [], _, _, _ => rfl
  | [], _ :: _, _, _, same => by cases same
  | _ :: _, [], _, _, same => by cases same
  | a :: first, b :: second, clean, clean', same => by
    obtain ⟨head,tail⟩ := List.cons.inj same
    rw [writeSetting_injective (clean a (by simp)) (clean' b (by simp)) head,
      written_injective (fun s m => clean s (by simp [m])) (fun s m => clean' s (by simp [m])) tail]

theorem nonblank_writeSetting {setting : Setting} (clean : Keyword setting.1) (tame : Tame setting.2) :
    ∀ c ∈ writeSetting setting, isSpace c = false := by
  intro c member
  rcases List.mem_append.mp member with name | rest
  · exact (clean c name).1
  · rcases List.mem_cons.mp rest with rfl | value
    · rfl
    · exact (tame.1 c value).1

/-- A blank ends a field of tame settings, and nothing else does. -/
theorem fields_write {settings : List Setting} (nonempty : settings ≠ [])
    (tame : ∀ setting ∈ settings, Keyword setting.1 ∧ Tame setting.2) :
    (write settings).splitOnP isSpace = settings.map writeSetting := by
  induction settings with
  | nil => contradiction
  | cons setting rest ih =>
    have head := nonblank_writeSetting (tame setting (by simp)).1 (tame setting (by simp)).2
    cases rest with
    | nil => exact List.splitOnP_eq_singleton head
    | cons other rest =>
      show (writeSetting setting ++ blank :: write (other :: rest)).splitOnP isSpace = _
      rw [List.splitOnP_append_cons_of_forall_mem head blank rfl,ih (List.cons_ne_nil other rest) fun s m => tame s (by simp [m])]
      rfl

/-! ## What reading costs -/

/-- Settings read with nothing to spare: each one as it is written, and one blank. -/
inductive Spelled : List Setting → Bytes → Prop where
  | nil : Spelled [] []
  | snoc {settings text name value c} : Spelled settings text → Keyword name → Tame value → value ≠ [] →
      isSpace c = true → Spelled (settings ++ [(name,value)]) (text ++ (writeSetting (name,value) ++ [c]))

/-- The bytes that the reader keeps of the setting it is at. -/
def Mode.span : Mode → Nat
  | .between => 0
  | .keyword name | .afterKeyword name => name.length
  | .beforeValue name => name.length + 1
  | .unquoted name value | .escape name value | .quoted name value | .quotedEscape name value =>
    name.length + 1 + value.length

/-- The text of the setting the reader is at, if it was read with nothing to spare. -/
def Mode.Spells : Mode → Bytes → Prop
  | .between, text => text = []
  | .keyword name, text => Keyword name ∧ text = name
  | .beforeValue name, text => Keyword name ∧ text = name ++ [equals]
  | .unquoted name value, text => Keyword name ∧ Tame value ∧ value ≠ [] ∧ text = writeSetting (name,value)
  | _, _ => False

/-- The text has the bytes of its settings and some more; with none more, it is
    the settings as they are written. -/
def Counted (text : Bytes) (s : State) : Prop :=
  ∃ spare, text.length = (s.settings.map cost).sum + s.mode.span + spare ∧
    (spare = 0 → ∃ done rest, text = done ++ rest ∧ Spelled s.settings done ∧ s.mode.Spells rest)

variable {known}

theorem counted_spare {text : Bytes} {s : State} (counted : Counted text s) (mode : Mode) (same : mode.span = s.mode.span)
    (c : Byte) : Counted (text ++ [c]) ⟨s.settings,mode⟩ := by
  obtain ⟨spare,length,_⟩ := counted
  refine ⟨spare + 1,?_,by omega⟩
  simp only [List.length_append,List.length_singleton,same]
  omega

theorem counted_grown {text : Bytes} {s : State} {mode : Mode} {c : Byte} (counted : Counted text s)
    (grown : mode.span = s.mode.span + 1) (spells : ∀ rest, s.mode.Spells rest → mode.Spells (rest ++ [c])) :
    Counted (text ++ [c]) ⟨s.settings,mode⟩ := by
  obtain ⟨spare,length,spelled⟩ := counted
  refine ⟨spare,?_,?_⟩
  · simp only [List.length_append,List.length_singleton,grown]
    omega
  · intro none
    obtain ⟨done,rest,rfl,before,now⟩ := spelled none
    exact ⟨done,rest ++ [c],by simp,before,spells rest now⟩

theorem counted_stored {text : Bytes} {s : State} {settings : List Setting} {name value : Bytes} {c : Byte}
    (counted : Counted text s) (span : s.mode.span = name.length + 1 + value.length)
    (spells : ∀ rest, s.mode.Spells rest →
      Keyword name ∧ Tame value ∧ value ≠ [] ∧ isSpace c = true ∧ rest = writeSetting (name,value))
    (stored : store known s.settings name value = some settings) : Counted (text ++ [c]) ⟨settings,.between⟩ := by
  unfold store at stored
  split at stored
  · cases Option.some.inj stored
    obtain ⟨spare,length,spelled⟩ := counted
    refine ⟨spare,?_,?_⟩
    · simp only [List.length_append,List.length_singleton,List.map_append,List.map_singleton,List.sum_append,
        List.sum_singleton,cost,Mode.span]
      omega
    · intro none
      obtain ⟨done,rest,rfl,before,now⟩ := spelled none
      obtain ⟨clean,tame,nonempty,space,rfl⟩ := spells rest now
      exact ⟨_,[],by simp,before.snoc clean tame nonempty space,rfl⟩
  · cases stored

theorem keyword_snoc {name : Bytes} {c : Byte} (clean : Keyword name) (space : isSpace c = false) (other : c ≠ equals) :
    Keyword (name ++ [c]) := by
  intro d member
  rcases List.mem_append.mp member with before | last
  · exact clean d before
  · cases List.mem_singleton.mp last
    exact ⟨space,other⟩

theorem tame_snoc {value : Bytes} {c : Byte} (tame : Tame value) (nonempty : value ≠ []) (space : isSpace c = false)
    (other : c ≠ backslash) : Tame (value ++ [c]) := by
  refine ⟨?_,?_⟩
  · intro d member
    rcases List.mem_append.mp member with before | last
    · exact tame.1 d before
    · cases List.mem_singleton.mp last
      exact ⟨space,other⟩
  · obtain ⟨d,rest,rfl⟩ := List.exists_cons_of_ne_nil nonempty
    exact tame.2

theorem counted_step {text : Bytes} {s t : State} {c : Byte} (counted : Counted text s) (one : next known s c = some t) :
    Counted (text ++ [c]) t := by
  obtain ⟨settings,mode⟩ := s
  cases mode with
  | between =>
    simp only [next] at one
    split at one
    · cases Option.some.inj one
      exact counted_spare counted .between rfl c
    · rename_i space
      split at one
      · rename_i same
        cases Option.some.inj one
        refine counted_grown counted rfl ?_
        rintro rest rfl
        exact ⟨by simp [Keyword],by simp [same]⟩
      · rename_i other
        cases Option.some.inj one
        refine counted_grown counted rfl ?_
        rintro rest rfl
        exact ⟨@keyword_snoc [] c (by simp [Keyword]) (by simpa using space) other,rfl⟩
  | keyword name =>
    simp only [next] at one
    split at one
    · cases Option.some.inj one
      exact counted_spare counted (.afterKeyword name) rfl c
    · rename_i space
      split at one
      · rename_i same
        cases Option.some.inj one
        refine counted_grown counted rfl ?_
        rintro rest ⟨clean,rfl⟩
        exact ⟨clean,by rw [same]⟩
      · rename_i other
        cases Option.some.inj one
        refine counted_grown counted (by simp [Mode.span]) ?_
        rintro rest ⟨clean,rfl⟩
        exact ⟨keyword_snoc clean (by simpa using space) other,rfl⟩
  | afterKeyword name =>
    simp only [next] at one
    split at one
    · cases Option.some.inj one
      exact counted_spare counted (.afterKeyword name) rfl c
    · split at one
      · cases Option.some.inj one
        refine counted_grown counted rfl ?_
        exact fun rest never => never.elim
      · cases one
  | beforeValue name =>
    simp only [next] at one
    split at one
    · cases Option.some.inj one
      exact counted_spare counted (.beforeValue name) rfl c
    · rename_i space
      split at one
      · cases Option.some.inj one
        exact counted_spare counted (.quoted name []) rfl c
      · rename_i plain
        split at one
        · cases Option.some.inj one
          exact counted_spare counted (.escape name []) rfl c
        · rename_i other
          cases Option.some.inj one
          refine counted_grown counted rfl ?_
          rintro rest ⟨clean,rfl⟩
          refine ⟨clean,⟨?_,?_⟩,List.cons_ne_nil c [],by simp [writeSetting]⟩
          · intro d member
            cases List.mem_singleton.mp member
            exact ⟨by simpa using space,other⟩
          · simpa using plain
  | unquoted name value =>
    simp only [next] at one
    split at one
    · rename_i space
      obtain ⟨settings',stored,rfl⟩ := Option.map_eq_some_iff.mp one
      refine counted_stored counted rfl ?_ stored
      rintro rest ⟨clean,tame,nonempty,rfl⟩
      exact ⟨clean,tame,nonempty,space,rfl⟩
    · rename_i space
      split at one
      · cases Option.some.inj one
        exact counted_spare counted (.escape name value) rfl c
      · rename_i other
        cases Option.some.inj one
        refine counted_grown counted (by simp [Mode.span]; omega) ?_
        rintro rest ⟨clean,tame,nonempty,rfl⟩
        exact ⟨clean,tame_snoc tame nonempty (by simpa using space) other,by simp,by simp [writeSetting]⟩
  | escape name value =>
    cases Option.some.inj one
    refine counted_grown counted (by simp [Mode.span]; omega) ?_
    exact fun rest never => never.elim
  | quoted name value =>
    simp only [next] at one
    split at one
    · obtain ⟨settings',stored,rfl⟩ := Option.map_eq_some_iff.mp one
      refine counted_stored counted rfl ?_ stored
      exact fun rest never => never.elim
    · split at one
      · cases Option.some.inj one
        exact counted_spare counted (.quotedEscape name value) rfl c
      · cases Option.some.inj one
        refine counted_grown counted (by simp [Mode.span]; omega) ?_
        exact fun rest never => never.elim
  | quotedEscape name value =>
    cases Option.some.inj one
    refine counted_grown counted (by simp [Mode.span]; omega) ?_
    exact fun rest never => never.elim

theorem run_counted {text : Bytes} {s : State} (ran : run (next known) ⟨[],.between⟩ text = some s) : Counted text s := by
  have start : Counted [] ⟨[],.between⟩ := ⟨0,rfl,fun _ => ⟨[],[],rfl,.nil,rfl⟩⟩
  exact run_induction Counted start (fun _ _ _ _ _ counted one => counted_step counted one) ran

/-- The string has the bytes of its settings without the blank after the last, and
    some more; with none more, it is the settings as they are written. -/
def Accounted (text : Bytes) (settings : List Setting) : Prop :=
  ∃ spare, text.length + 1 = (settings.map cost).sum + spare ∧ (spare = 0 → ∃ done before last,
    text = done ++ writeSetting last ∧ settings = before ++ [last] ∧ Spelled before done ∧ Keyword last.1 ∧ Tame last.2)

/-- The end of the string completes a setting. -/
theorem accounted_stored {text : Bytes} {s : State} {settings : List Setting} {name value : Bytes} (counted : Counted text s)
    (span : s.mode.span = name.length + 1 + value.length)
    (spells : ∀ rest, s.mode.Spells rest → rest = writeSetting (name,value) ∧ Keyword name ∧ Tame value)
    (stored : store known s.settings name value = some settings) : Accounted text settings := by
  unfold store at stored
  split at stored
  · cases Option.some.inj stored
    obtain ⟨spare,length,spelled⟩ := counted
    refine ⟨spare,?_,?_⟩
    · simp only [List.map_append,List.map_singleton,List.sum_append,List.sum_singleton,cost] at length ⊢
      omega
    · intro none
      obtain ⟨done,rest,rfl,earlier,now⟩ := spelled none
      obtain ⟨rfl,clean,tame⟩ := spells rest now
      exact ⟨done,s.settings,(name,value),rfl,rfl,earlier,clean,tame⟩
  · cases stored

theorem parse_accounted {text : Bytes} {settings : List Setting} (parsed : parse known text = some settings) :
    Accounted text settings := by
  obtain ⟨⟨before,mode⟩,ran,ended⟩ := Option.bind_eq_some_iff.mp parsed
  have counted := run_counted ran
  cases mode with
  | between =>
    cases Option.some.inj ended
    obtain ⟨spare,length,_⟩ := counted
    refine ⟨spare + 1,?_,by omega⟩
    rw [length]
    rfl
  | beforeValue name =>
    refine accounted_stored counted rfl ?_ ended
    rintro rest ⟨clean,rfl⟩
    exact ⟨rfl,clean,by simp [Tame]⟩
  | unquoted name value =>
    refine accounted_stored counted rfl ?_ ended
    rintro rest ⟨clean,tame,_,rfl⟩
    exact ⟨rfl,clean,tame⟩
  | escape name value => exact accounted_stored counted rfl (fun rest never => never.elim) ended
  | keyword name => cases ended
  | afterKeyword name => cases ended
  | quoted name value => cases ended
  | quotedEscape name value => cases ended

theorem spelled_settings {settings : List Setting} {text : Bytes} (spelled : Spelled settings text) :
    ∀ setting ∈ settings, Keyword setting.1 ∧ Tame setting.2 ∧ setting.2 ≠ [] := by
  induction spelled with
  | nil => simp
  | snoc _ clean tame nonempty _ ih =>
    intro setting member
    rcases List.mem_append.mp member with before | last
    · exact ih setting before
    · cases List.mem_singleton.mp last
      exact ⟨clean,tame,nonempty⟩

theorem fields_spelled {settings : List Setting} {text : Bytes} (spelled : Spelled settings text) (rest : Bytes) :
    (text ++ rest).splitOnP isSpace = settings.map writeSetting ++ rest.splitOnP isSpace := by
  induction spelled generalizing rest with
  | nil => rfl
  | @snoc settings text name value c _ clean tame _ space ih =>
    have field : (writeSetting (name,value) ++ c :: rest).splitOnP isSpace = writeSetting (name,value) :: rest.splitOnP isSpace :=
      List.splitOnP_append_cons_of_forall_mem (@nonblank_writeSetting (name,value) clean tame) c space rest
    have regroup : text ++ (writeSetting (name,value) ++ [c]) ++ rest = text ++ (writeSetting (name,value) ++ c :: rest) := by simp
    rw [regroup,ih,field]
    simp

/-! ## What was written is what is read -/

theorem mem_of_valueOf {settings : List Setting} {name value : Bytes} (assigned : valueOf settings name = some value) :
    (name,value) ∈ settings := by
  obtain ⟨before,after,split,_⟩ := List.lookup_eq_some_iff.mp assigned
  rw [← List.mem_reverse,split]
  simp

/-- Settings that hold all of some others cost at least as much. -/
theorem cost_le {settings items : List Setting} (distinct : items.Nodup) (all : ∀ item ∈ items, item ∈ settings) :
    (items.map cost).sum ≤ (settings.map cost).sum := by
  obtain ⟨part,perm,sub⟩ := distinct.subperm all
  calc (items.map cost).sum = (part.map cost).sum := ((perm.map cost).symm).sum_nat
    _ ≤ (settings.map cost).sum := (sub.map cost).sum_le_sum fun _ _ => Nat.zero_le _

/-- If every setting comes back with its value, the string was read as it was
    written. -/
theorem tame_of_read {settings items : List Setting} (nonempty : items ≠ []) (keywords : ∀ item ∈ items, Keyword item.1)
    (distinct : (items.map Prod.fst).Nodup) (parsed : parse known (write items) = some settings)
    (assigned : ∀ item ∈ items, valueOf settings item.1 = some item.2) :
    (∀ item ∈ items, Tame item.2) ∧ ∀ item ∈ items.dropLast, item.2 ≠ [] := by
  have present : ∀ item ∈ items, item ∈ settings := fun item member => mem_of_valueOf (assigned item member)
  have least := cost_le (List.Nodup.of_map Prod.fst distinct) present
  have length := length_write nonempty
  obtain ⟨spare,total,spelled⟩ := parse_accounted parsed
  obtain ⟨done,before,last,text,rfl,earlier,clean,tame⟩ := spelled (by omega)
  have read : ∀ setting ∈ before ++ [last], Keyword setting.1 ∧ Tame setting.2 := by
    intro setting member
    rcases List.mem_append.mp member with inside | final
    · exact ⟨(spelled_settings earlier setting inside).1,(spelled_settings earlier setting inside).2.1⟩
    · cases List.mem_singleton.mp final
      exact ⟨clean,tame⟩
  have tame' : ∀ item ∈ items, Tame item.2 := fun item member => (read item (present item member)).2
  have fields := fields_write nonempty fun item member => ⟨keywords item member,tame' item member⟩
  rw [text,fields_spelled earlier,List.splitOnP_eq_singleton (nonblank_writeSetting clean tame),
    ← List.map_singleton,← List.map_append] at fields
  have same := written_injective keywords (fun setting member => (read setting member).1) fields.symm
  refine ⟨tame',?_⟩
  rw [same,List.dropLast_concat]
  exact fun item member => (spelled_settings earlier item member).2.2

theorem run_letters {settings : List Setting} {letters : Bytes} (clean : Keyword letters) (name : Bytes) :
    run (next known) ⟨settings,.keyword name⟩ letters = some ⟨settings,.keyword (name ++ letters)⟩ := by
  induction letters generalizing name with
  | nil => simp
  | cons c letters ih =>
    obtain ⟨space,other⟩ := clean c (by simp)
    have one : next known ⟨settings,.keyword name⟩ c = some ⟨settings,.keyword (name ++ [c])⟩ := by simp [next,space,other]
    refine run_cons_some.mpr ⟨_,one,?_⟩
    rw [ih fun d member => clean d (by simp [member])]
    simp

theorem run_name {settings : List Setting} {name : Bytes} (clean : Keyword name) :
    run (next known) ⟨settings,.between⟩ (name ++ [equals]) = some ⟨settings,.beforeValue name⟩ := by
  have plain : isSpace equals = false := rfl
  cases name with
  | nil => exact run_singleton_some.mpr (by simp [next,plain])
  | cons c letters =>
    obtain ⟨space,other⟩ := clean c (by simp)
    have one : next known ⟨settings,.between⟩ c = some ⟨settings,.keyword [c]⟩ := by simp [next,space,other]
    have rest := @run_letters known settings letters (fun d member => clean d (by simp [member])) [c]
    refine run_cons_some.mpr ⟨_,one,run_append_some.mpr ⟨_,rest,?_⟩⟩
    exact run_singleton_some.mpr (by simp [next,plain])

theorem run_unquoted {settings : List Setting} {name more : Bytes} (plain : ∀ c ∈ more, isSpace c = false ∧ c ≠ backslash)
    (value : Bytes) :
    run (next known) ⟨settings,.unquoted name value⟩ more = some ⟨settings,.unquoted name (value ++ more)⟩ := by
  induction more generalizing value with
  | nil => simp
  | cons c more ih =>
    obtain ⟨space,other⟩ := plain c (by simp)
    have one : next known ⟨settings,.unquoted name value⟩ c = some ⟨settings,.unquoted name (value ++ [c])⟩ := by
      simp [next,space,other]
    refine run_cons_some.mpr ⟨_,one,?_⟩
    rw [ih fun d member => plain d (by simp [member])]
    simp

theorem run_value {settings : List Setting} {name value : Bytes} (tame : Tame value) (nonempty : value ≠ []) :
    run (next known) ⟨settings,.beforeValue name⟩ value = some ⟨settings,.unquoted name value⟩ := by
  obtain ⟨c,more,rfl⟩ := List.exists_cons_of_ne_nil nonempty
  obtain ⟨space,other⟩ := tame.1 c (by simp)
  have unquoted : c ≠ quote := by simpa using tame.2
  have one : next known ⟨settings,.beforeValue name⟩ c = some ⟨settings,.unquoted name [c]⟩ := by
    simp [next,space,unquoted,other]
  exact run_cons_some.mpr ⟨_,one,run_unquoted (fun d member => tame.1 d (by simp [member])) [c]⟩

theorem run_setting {settings : List Setting} {setting : Setting} (clean : Keyword setting.1) (tame : Tame setting.2)
    (nonempty : setting.2 ≠ []) :
    run (next known) ⟨settings,.between⟩ (writeSetting setting) = some ⟨settings,.unquoted setting.1 setting.2⟩ := by
  have split : writeSetting setting = setting.1 ++ [equals] ++ setting.2 := by simp [writeSetting]
  rw [split]
  exact run_append_some.mpr ⟨_,run_name clean,run_value tame nonempty⟩

/-- A setting at the end of the string, where its value may be empty. -/
theorem finish_setting {settings : List Setting} {setting : Setting} (clean : Keyword setting.1) (tame : Tame setting.2)
    (valid : known setting.1 = true) :
    ∃ s, run (next known) ⟨settings,.between⟩ (writeSetting setting) = some s ∧
      finish known s = some (settings ++ [setting]) := by
  have stored : ∀ value, store known settings setting.1 value = some (settings ++ [(setting.1,value)]) := by
    intro value
    rw [store,if_pos valid]
  by_cases empty : setting.2 = []
  · obtain ⟨name,value⟩ := setting
    simp only at empty
    subst empty
    exact ⟨_,run_name clean,stored []⟩
  · exact ⟨_,run_setting clean tame empty,stored setting.2⟩

theorem run_write : ∀ {items settings : List Setting}, items ≠ [] →
    (∀ item ∈ items, Keyword item.1 ∧ known item.1 = true ∧ Tame item.2) → (∀ item ∈ items.dropLast, item.2 ≠ []) →
    ∃ s, run (next known) ⟨settings,.between⟩ (write items) = some s ∧ finish known s = some (settings ++ items)
  | [], _, nonempty, _, _ => absurd rfl nonempty
  | [item], settings, _, all, _ => by
    obtain ⟨clean,valid,tame⟩ := all item (by simp)
    exact finish_setting clean tame valid
  | item :: other :: items, settings, _, all, filled => by
    obtain ⟨clean,valid,tame⟩ := all item (by simp)
    have head := @run_setting known settings item clean tame (filled item (by simp))
    have ended : next known ⟨settings,.unquoted item.1 item.2⟩ blank = some ⟨settings ++ [item],.between⟩ := by
      have space : isSpace blank = true := rfl
      simp [next,space,store,valid]
    obtain ⟨s,rest,finished⟩ := @run_write (other :: items) (settings ++ [item]) (List.cons_ne_nil other items)
      (fun i member => all i (by simp [member])) (fun i member => filled i (by simp [member]))
    refine ⟨s,run_append_some.mpr ⟨_,head,run_cons_some.mpr ⟨_,ended,rest⟩⟩,?_⟩
    simpa using finished

theorem valueOf_of_mem {items : List Setting} (distinct : (items.map Prod.fst).Nodup) {item : Setting} (member : item ∈ items) :
    valueOf items item.1 = some item.2 := by
  obtain ⟨before,after,rfl⟩ := List.append_of_mem member
  refine List.lookup_eq_some_iff.mpr ⟨after.reverse,before.reverse,by simp,?_⟩
  intro other later
  have apart : item.1 ∉ after.map Prod.fst := by
    rw [List.map_append,List.map_cons] at distinct
    exact (List.nodup_cons.mp (List.nodup_append.mp distinct).2.1).1
  simp only [bne_iff_ne,ne_eq]
  intro same
  exact apart (List.mem_map.mpr ⟨other,List.mem_reverse.mp later,same.symm⟩)

/-- The writer's string gives every setting its value exactly if no value needs
    protection and none but the last is empty. -/
theorem read_write_iff {items : List Setting} (nonempty : items ≠ []) (keywords : ∀ item ∈ items, Keyword item.1)
    (valid : ∀ item ∈ items, known item.1 = true) (distinct : (items.map Prod.fst).Nodup) :
    (∃ settings, parse known (write items) = some settings ∧ ∀ item ∈ items, valueOf settings item.1 = some item.2) ↔
      (∀ item ∈ items, Tame item.2) ∧ ∀ item ∈ items.dropLast, item.2 ≠ [] := by
  constructor
  · rintro ⟨settings,parsed,assigned⟩
    exact tame_of_read nonempty keywords distinct parsed assigned
  · rintro ⟨tame,filled⟩
    obtain ⟨s,ran,finished⟩ := @run_write known items [] nonempty
      (fun item member => ⟨keywords item member,valid item member,tame item member⟩) filled
    refine ⟨items,?_,fun item member => valueOf_of_mem distinct member⟩
    exact Option.bind_eq_some_iff.mpr ⟨s,ran,finished⟩

end SysInfo.Conninfo
