import Mathlib.Data.List.Basic
import SysInfo.Text

/-!
# INSERT statements as text

The part of PostgreSQL's SQL made of words, `'...'` literals, parentheses, commas
and semicolons: its tokens, the INSERT statements with lists of rows among its
statements, and the rows they add to a table. A text that needs more than this
reads as `outside`, and nothing is said about it.
-/

namespace SysInfo.Sql
open SysInfo.Text

inductive Token where
  | word (letters : Bytes)
  | literal (value : Bytes)
  | opening
  | closing
  | comma
  | semicolon
  deriving DecidableEq

/-- Why a text has no rows: the database refuses it as a whole, or it is not in
    the part of the language that is read here. -/
inductive Unread where
  | refused
  | outside
  deriving DecidableEq

/-! ## Tokens -/

def quote : Byte := 39

def isWord (c : Byte) : Bool := isDigit c || (65 ≤ c && c ≤ 90) || (97 ≤ c && c ≤ 122) || c = 95

def mark (c : Byte) : Option Token :=
  if c = 40 then some .opening
  else if c = 41 then some .closing
  else if c = 44 then some .comma
  else if c = 59 then some .semicolon
  else none

/-- What the reader is inside of. After a quote in a literal it is `quoted`: the
    literal ends there unless a second quote follows. -/
inductive Mode where
  | plain
  | word (letters : Bytes)
  | literal (value : Bytes)
  | quoted (value : Bytes)
  deriving DecidableEq

structure Scan where
  tokens : List Token
  mode : Mode
  deriving DecidableEq

/-- A byte outside words and literals. -/
def between (tokens : List Token) (c : Byte) : Except Unread Scan :=
  if c = quote then .ok ⟨tokens,.literal []⟩
  else if isWord c then .ok ⟨tokens,.word [c]⟩
  else if isSpace c then .ok ⟨tokens,.plain⟩
  else match mark c with
    | some token => .ok ⟨tokens ++ [token],.plain⟩
    | none => .error .outside

def next (s : Scan) (c : Byte) : Except Unread Scan :=
  match s.mode with
  | .plain => between s.tokens c
  | .word letters =>
    if isWord c then .ok ⟨s.tokens,.word (letters ++ [c])⟩
    -- A quote after a word opens another kind of literal, such as `E'...'`.
    else if c = quote then .error .outside
    else between (s.tokens ++ [.word letters]) c
  | .literal value => if c = quote then .ok ⟨s.tokens,.quoted value⟩ else .ok ⟨s.tokens,.literal (value ++ [c])⟩
  | .quoted value =>
    if c = quote then .ok ⟨s.tokens,.literal (value ++ [quote])⟩ else between (s.tokens ++ [.literal value]) c

def scan (s : Scan) (text : Bytes) : Except Unread Scan := text.foldlM next s

def finish (s : Scan) : Except Unread (List Token) :=
  match s.mode with
  | .plain => .ok s.tokens
  | .word letters => .ok (s.tokens ++ [.word letters])
  | .literal _ => .error .refused
  | .quoted value => .ok (s.tokens ++ [.literal value])

def tokensOf (text : Bytes) : Except Unread (List Token) := do finish (← scan ⟨[],.plain⟩ text)

/-- The value of the body of a literal; `none` when a quote in it is not doubled,
    so that the literal ends inside. -/
def unquote : Bytes → Option Bytes
  | [] => some []
  | [c] => if c = quote then none else some [c]
  | c :: d :: rest =>
    if c = quote then if d = quote then (unquote rest).map (quote :: ·) else none
    else (unquote (d :: rest)).map (c :: ·)

theorem unquote_cons {c : Byte} (plain : c ≠ quote) (rest : Bytes) : unquote (c :: rest) = (unquote rest).map (c :: ·) := by
  cases rest with
  | nil => simp [unquote,plain]
  | cons d rest => simp [unquote,plain]

theorem unquote_quote {rest value : Bytes} (safe : unquote (quote :: rest) = some value) :
    ∃ tail value', rest = quote :: tail ∧ unquote tail = some value' ∧ value = quote :: value' := by
  cases rest with
  | nil => simp [unquote] at safe
  | cons d tail =>
    simp only [unquote,↓reduceIte] at safe
    split at safe
    · rename_i doubled
      obtain ⟨value',inner,rfl⟩ := Option.map_eq_some_iff.mp safe
      exact ⟨tail,value',by rw [doubled],inner,rfl⟩
    · cases safe

/-- Text without quotes stands for itself. -/
theorem unquote_of_not_mem {text : Bytes} (clean : quote ∉ text) : unquote text = some text := by
  induction text with
  | nil => rfl
  | cons c rest ih =>
    have plain : c ≠ quote := fun same => clean (by simp [same])
    have rest' : quote ∉ rest := fun member => clean (by simp [member])
    rw [unquote_cons plain,ih rest']
    rfl

/-- Cutting a body at a byte that is no quote leaves the quotes before it doubled. -/
theorem unquote_takeWhile {keep : Byte → Bool} (quotes : keep quote = true) :
    ∀ {text value : Bytes}, unquote text = some value → ∃ shorter, unquote (text.takeWhile keep) = some shorter
  | [], _, _ => ⟨[],rfl⟩
  | c :: rest, value, safe => by
    by_cases same : c = quote
    · subst same
      obtain ⟨tail,value',rfl,inner,_⟩ := unquote_quote safe
      obtain ⟨shorter,cut⟩ := unquote_takeWhile quotes inner
      exact ⟨quote :: shorter,by simp [quotes,unquote,cut]⟩
    · rw [unquote_cons same] at safe
      obtain ⟨value',inner,_⟩ := Option.map_eq_some_iff.mp safe
      obtain ⟨shorter,cut⟩ := unquote_takeWhile quotes inner
      by_cases kept : keep c = true
      · exact ⟨c :: shorter,by simp [kept,unquote_cons same,cut]⟩
      · exact ⟨[],by simp [kept,unquote]⟩

@[simp] theorem scan_nil (s : Scan) : scan s [] = .ok s := rfl

theorem scan_cons (s : Scan) (c : Byte) (rest : Bytes) : scan s (c :: rest) = (next s c).bind fun t => scan t rest := rfl

theorem scan_append (s : Scan) (first second : Bytes) :
    scan s (first ++ second) = (scan s first).bind fun t => scan t second := by
  unfold scan
  rw [List.foldlM_append]
  rfl

theorem scan_append_ok {s t : Scan} {first second : Bytes} (read : scan s first = .ok t) :
    scan s (first ++ second) = scan t second := by
  rw [scan_append,read]
  rfl

theorem scan_letters {tokens : List Token} : ∀ {letters more : Bytes}, (∀ c ∈ more, isWord c = true) →
    scan ⟨tokens,.word letters⟩ more = .ok ⟨tokens,.word (letters ++ more)⟩
  | letters, [], _ => by simp
  | letters, c :: more, all => by
    have head : next ⟨tokens,.word letters⟩ c = .ok ⟨tokens,.word (letters ++ [c])⟩ := by simp [next,all c (by simp)]
    rw [scan_cons,head]
    show scan ⟨tokens,.word (letters ++ [c])⟩ more = _
    rw [scan_letters fun d member => all d (by simp [member])]
    simp

private theorem isWord_ne_quote {c : Byte} (letter : isWord c = true) : c ≠ quote := by
  rintro rfl
  revert letter
  decide

/-- A word between other tokens. -/
theorem scan_word {tokens : List Token} {letters : Bytes} (some : letters ≠ []) (all : ∀ c ∈ letters, isWord c = true) :
    scan ⟨tokens,.plain⟩ letters = .ok ⟨tokens,.word letters⟩ := by
  cases letters with
  | nil => contradiction
  | cons c more =>
    have letter := all c (by simp)
    have head : next ⟨tokens,.plain⟩ c = .ok ⟨tokens,.word [c]⟩ := by
      simp [next,between,letter,isWord_ne_quote letter]
    rw [scan_cons,head]
    exact scan_letters fun d member => all d (by simp [member])

/-- A body whose quotes are doubled is read to its end, as its value. -/
theorem scan_literal {tokens : List Token} : ∀ {before body value : Bytes}, unquote body = some value →
    scan ⟨tokens,.literal before⟩ body = .ok ⟨tokens,.literal (before ++ value)⟩
  | before, [], value, safe => by
    cases safe
    simp
  | before, c :: rest, value, safe => by
    by_cases same : c = quote
    · subst same
      obtain ⟨tail,value',rfl,inner,rfl⟩ := unquote_quote safe
      have read : scan ⟨tokens,.literal before⟩ [quote,quote] = .ok ⟨tokens,.literal (before ++ [quote])⟩ := by
        simp [scan,next]
        rfl
      show scan _ ([quote,quote] ++ tail) = _
      rw [scan_append_ok read,scan_literal inner]
      simp
    · rw [unquote_cons same] at safe
      obtain ⟨value',inner,rfl⟩ := Option.map_eq_some_iff.mp safe
      have head : next ⟨tokens,.literal before⟩ c = .ok ⟨tokens,.literal (before ++ [c])⟩ := by simp [next,same]
      rw [scan_cons,head]
      show scan ⟨tokens,.literal (before ++ [c])⟩ rest = _
      rw [scan_literal inner]
      simp

/-- A text that ends inside a literal is refused. -/
theorem tokensOf_unterminated {text value : Bytes} {tokens : List Token}
    (read : scan ⟨[],.plain⟩ text = .ok ⟨tokens,.literal value⟩) : tokensOf text = .error .refused := by
  unfold tokensOf
  rw [read]
  rfl

/-! ## Statements -/

inductive Value where
  | text (value : Bytes)
  | number (value : Nat)
  deriving DecidableEq

def value? : Token → Option Value
  | .literal value => some (.text value)
  | .word letters => if letters.all isDigit then some (.number (decimalValue letters)) else none
  | _ => none

/-- The rows of a statement from a value on, after the values of a row that were
    already read. -/
def rowsFrom (row : List Value) : List Token → Option (List (List Value))
  | token :: .comma :: rest => do rowsFrom (row ++ [← value? token]) rest
  | token :: .closing :: .comma :: .opening :: rest => do return (row ++ [← value? token]) :: (← rowsFrom [] rest)
  | [token,.closing] => do return [row ++ [← value? token]]
  | _ => none

def columnsFrom (columns : List Bytes) : List Token → Option (List Bytes × List Token)
  | .word column :: .comma :: rest => columnsFrom (columns ++ [column]) rest
  | .word column :: .closing :: rest => some (columns ++ [column],rest)
  | _ => none

structure Insert where
  table : Bytes
  columns : List Bytes
  rows : List (List Value)
  deriving DecidableEq

def insert? : List Token → Option Insert
  | .word insert :: .word into :: .word table :: .opening :: rest => do
    guard (insert = lit "INSERT" ∧ into = lit "INTO")
    match ← columnsFrom [] rest with
    | (columns,.word values :: .opening :: rest) =>
      guard (values = lit "VALUES")
      return ⟨table,columns,← rowsFrom [] rest⟩
    | _ => none
  | _ => none

/-- The statements between the semicolons; an empty one is no statement. -/
def statements (tokens : List Token) : List (List Token) := (tokens.splitOn .semicolon).filter (· ≠ [])

/-! ## Rows -/

inductive Kind where
  | TEXT
  | INTEGER
  deriving DecidableEq

/-- A table with the columns that an INSERT has to name. -/
structure Table where
  name : Bytes
  columns : List (Bytes × Kind)

def Value.kind : Value → Kind
  | .text _ => .TEXT
  | .number _ => .INTEGER

/-- The value fits its column: an `INTEGER` has 32 bits. -/
def Value.fits : Value → Bool
  | .text _ => true
  | .number value => value < 2147483648

def Insert.into (insert : Insert) (table : Table) : Bool :=
  insert.table = table.name && insert.columns = table.columns.map Prod.fst &&
    insert.rows.all fun row => row.map Value.kind = table.columns.map Prod.snd

/-- The rows that a text of INSERT statements adds to the table. A number that
    does not fit its column makes the database refuse the text as a whole. -/
def readRows (table : Table) (text : Bytes) : Except Unread (List (List Value)) := do
  match (statements (← tokensOf text)).mapM insert? with
  | none => throw .outside
  | some inserts =>
    if inserts.all fun insert => insert.into table then
      let rows := inserts.flatMap Insert.rows
      if rows.all fun row => row.all Value.fits then return rows else throw .refused
    else throw .outside

theorem readRows_of_inserts {table : Table} {text : Bytes} {tokens : List Token} {inserts : List Insert}
    (read : tokensOf text = .ok tokens) (parsed : (statements tokens).mapM insert? = some inserts)
    (into : inserts.all (fun insert => insert.into table) = true) :
    readRows table text =
      if (inserts.flatMap Insert.rows).all (fun row => row.all Value.fits) then .ok (inserts.flatMap Insert.rows)
      else .error .refused := by
  unfold readRows
  rw [read]
  simp only [Bind.bind,Except.bind,parsed,into,↓reduceIte]
  rfl

theorem readRows_of_refused {table : Table} {text : Bytes} (read : tokensOf text = .error .refused) :
    readRows table text = .error .refused := by
  unfold readRows
  rw [read]
  rfl

/-! ## The database -/

/-- What executing a text may do: add a row to the table, or anything else. -/
inductive Effect where
  | row (values : List Value)
  | other
  deriving DecidableEq

/-- A database as the effects that executing a text can have. Of a text that is
    read here it executes every statement, or, where it fails for any reason (an
    encoding, a lost connection), nothing; about other texts nothing is known. -/
structure Database (table : Table) where
  Executes : Bytes → List Effect → Prop
  inserts : ∀ {text rows}, (∀ c ∈ text, c < 128) → readRows table text = .ok rows → Executes text (rows.map .row)
  inserts_only : ∀ {text rows effects}, readRows table text = .ok rows → Executes text effects →
    effects = rows.map .row ∨ effects = []
  refuses : ∀ {text effects}, readRows table text = .error .refused → Executes text effects → effects = []

/-- A database that does nothing else. -/
def reading (table : Table) : Database table where
  Executes text effects := effects = ((readRows table text).toOption.getD []).map .row
  inserts _ read := by simp [read,Except.toOption]
  inserts_only read executed := .inl (by simpa [read,Except.toOption] using executed)
  refuses refused executed := by simpa [refused,Except.toOption] using executed

end SysInfo.Sql
