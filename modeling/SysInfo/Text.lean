import Mathlib.Data.List.TakeWhile

/-!
# Bytes, C strings and decimal numerals

A `std::string` is its list of bytes. The C library functions read such a list
up to its first NUL, or report that they ran past the end of an array.
-/

namespace SysInfo.Text

abbrev Byte := UInt8
abbrev Bytes := List Byte

/-- The bytes of an ASCII literal. -/
def lit (text : String) : Bytes := text.toList.map fun c => c.toNat.toUInt8

/-! ## C strings -/

/-- What `c_str()` passes on: everything up to the first NUL. -/
def cString (text : Bytes) : Bytes := text.takeWhile (· ≠ 0)

/-- `strlen` of a char array; `none` when no NUL ends it. -/
def strlen : Bytes → Option Nat
  | [] => none
  | c :: rest => if c = 0 then some 0 else (strlen rest).map (· + 1)

/-- `strcmp` of two char arrays; `none` when it would read past an end. -/
def strcmp : Bytes → Bytes → Option Int
  | a :: left, b :: right =>
    if a ≠ b then some (a.toNat - b.toNat : Int) else if a = 0 then some 0 else strcmp left right
  | _, _ => none

theorem cString_of_not_mem {text : Bytes} (clean : 0 ∉ text) : cString text = text := by
  apply List.takeWhile_eq_self_iff.mpr
  intro c member
  exact decide_eq_true fun same => clean (same ▸ member)

/-- A NUL ends the C string, whatever follows it. -/
theorem cString_append (first second : Bytes) :
    cString (first ++ second) = if 0 ∈ first then cString first else first ++ cString second := by
  induction first with
  | nil => simp
  | cons c first ih =>
    by_cases zero : c = 0
    · simp [cString,zero]
    · by_cases later : (0 : Byte) ∈ first
      · simpa [cString,zero,Ne.symm zero,later] using ih
      · simpa [cString,zero,Ne.symm zero,later] using ih

/-! ## Decimal numerals -/

def isDigit (c : Byte) : Bool := 48 ≤ c && c ≤ 57

/-- `isspace` in the C locale. -/
def isSpace (c : Byte) : Bool := c = 32 || (9 ≤ c && c ≤ 13)

/-- The number a list of decimal digits denotes. -/
def decimalValue (digits : Bytes) : Nat := digits.foldl (fun value c => 10 * value + (c.toNat - 48)) 0

/-- The shortest decimal numeral of a number, as `std::to_string` prints it. -/
def decimal (n : Nat) : Bytes := (Nat.toDigits 10 n).map fun c => c.toNat.toUInt8

private theorem digit_bounds {c : Char} (digit : c.isDigit = true) : 48 ≤ c.toNat ∧ c.toNat ≤ 57 := by
  simp only [Char.isDigit,Bool.and_eq_true,decide_eq_true_eq,ge_iff_le,UInt32.le_iff_toNat_le] at digit
  exact digit

private theorem digit_toNat {c : Char} (digit : c.isDigit = true) : (c.toNat.toUInt8).toNat = c.toNat := by
  have bounds := digit_bounds digit
  exact UInt8.toNat_ofNat_of_lt' (by show c.toNat < 256; omega)

theorem decimal_ne_nil (n : Nat) : decimal n ≠ [] := by
  simp [decimal,Nat.toDigits_ne_nil]

theorem decimal_digits (n : Nat) : ∀ c ∈ decimal n, isDigit c = true := by
  intro c member
  obtain ⟨d,inside,rfl⟩ := List.mem_map.mp member
  have digit := Nat.isDigit_of_mem_toDigits (by decide) (by decide) inside
  have bounds := digit_bounds digit
  simp only [isDigit,Bool.and_eq_true,decide_eq_true_eq,UInt8.le_iff_toNat_le,digit_toNat digit]
  exact ⟨by simpa using bounds.1,by simpa using bounds.2⟩

/-- Printing a number and reading its digits gives the number back. -/
theorem decimalValue_decimal (n : Nat) : decimalValue (decimal n) = n := by
  have digits : ∀ c ∈ Nat.toDigits 10 n, c.isDigit = true :=
    fun c member => Nat.isDigit_of_mem_toDigits (by decide) (by decide) member
  have fold : ∀ (cs : List Char) (start : Nat), (∀ c ∈ cs, c.isDigit = true) →
      (cs.map fun c => c.toNat.toUInt8).foldl (fun value c => 10 * value + (c.toNat - 48)) start =
        Nat.ofDigitChars 10 cs start := by
    intro cs
    induction cs with
    | nil => intro start _; simp
    | cons c cs ih =>
      intro start all
      have head := digit_toNat (all c (by simp))
      rw [List.map_cons,List.foldl_cons,head,ih _ fun d member => all d (by simp [member]),Nat.ofDigitChars_cons]
      rfl
  rw [decimalValue,decimal,fold _ _ digits,Nat.ofDigitChars_ten_toDigits]

/-! ## `atoi` -/

/-- A value saturated to the range of a 64-bit `long`. -/
def saturate (value : Int) : Int := max (-9223372036854775808) (min value 9223372036854775807)

/-- glibc's `strtol` in base ten: blanks, an optional sign, then digits up to the
    first other byte, saturated to `long`. -/
def strtol (text : Bytes) : Int :=
  match text.dropWhile isSpace with
  | 45 :: rest => saturate (-(decimalValue (rest.takeWhile isDigit) : Int))
  | 43 :: rest => saturate (decimalValue (rest.takeWhile isDigit) : Int)
  | rest => saturate (decimalValue (rest.takeWhile isDigit) : Int)

/-- The integer at the beginning of a text, where `strtol` reads it; zero where
    there are no digits. -/
def leadingValue (text : Bytes) : Int :=
  match text.dropWhile isSpace with
  | 45 :: rest => -(decimalValue (rest.takeWhile isDigit) : Int)
  | 43 :: rest => (decimalValue (rest.takeWhile isDigit) : Int)
  | rest => (decimalValue (rest.takeWhile isDigit) : Int)

theorem strtol_eq (text : Bytes) : strtol text = saturate (leadingValue text) := by
  unfold strtol leadingValue
  split <;> rfl

/-- glibc's `atoi`: the `long` of `strtol` cut to the low 32 bits. -/
def atoi (text : Bytes) : Int32 := Int32.ofInt (strtol text)

/-- The conversion of an `int` to `size_t`: sign extension to 64 bits. -/
def sizeOfInt (value : Int32) : UInt64 := value.toInt64.toUInt64

/-- The conversion keeps the value modulo the width of `size_t`. -/
theorem sizeOfInt_toNat (value : Int32) : ((sizeOfInt value).toNat : Int) = value.toInt % 18446744073709551616 := by
  have wide : value.toInt64.toBitVec.toInt = value.toInt := Int32.toInt_toInt64 value
  have small := value.toInt64.toBitVec.isLt
  rw [BitVec.toInt_eq_toNat_bmod] at wide
  have same : ((sizeOfInt value).toNat : Int) = (value.toInt64.toBitVec.toNat : Int) := rfl
  rw [← wide,same]
  simp only [Int.bmod]
  split <;> omega

/-! ## Signed numerals -/

def digitsValue (digits : Bytes) : Option Int :=
  if digits ≠ [] ∧ digits.all isDigit then some (decimalValue digits) else none

/-- The integer that a decimal numeral with an optional sign denotes. -/
def integerValue : Bytes → Option Int
  | 45 :: digits => (digitsValue digits).map (- ·)
  | 43 :: digits => digitsValue digits
  | digits => digitsValue digits

theorem isDigit_ne_sign {c : Byte} (digit : isDigit c = true) : c ≠ 45 ∧ c ≠ 43 := by
  constructor
  · rintro rfl
    revert digit
    decide
  · rintro rfl
    revert digit
    decide

theorem integerValue_unsigned {c : Byte} (digit : isDigit c = true) (rest : Bytes) :
    integerValue (c :: rest) = digitsValue (c :: rest) := by
  simp [integerValue,isDigit_ne_sign digit]

theorem digitsValue_some {digits : Bytes} {value : Int} (numeral : digitsValue digits = some value) :
    digits ≠ [] ∧ (∀ c ∈ digits, isDigit c = true) ∧ value = decimalValue digits := by
  unfold digitsValue at numeral
  split at numeral
  · rename_i all
    exact ⟨all.1,List.all_eq_true.mp all.2,(Option.some.inj numeral).symm⟩
  · cases numeral

/-- A numeral is a sign or nothing, and then digits. -/
theorem integerValue_cases {text : Bytes} {value : Int} (numeral : integerValue text = some value) :
    (∃ digits v, text = 45 :: digits ∧ digitsValue digits = some v ∧ value = -v) ∨
    (∃ digits, text = 43 :: digits ∧ digitsValue digits = some value) ∨
    (∃ c rest, text = c :: rest ∧ isDigit c = true ∧ digitsValue text = some value) := by
  unfold integerValue at numeral
  split at numeral
  · rename_i digits
    obtain ⟨v,inner,rfl⟩ := Option.map_eq_some_iff.mp numeral
    exact .inl ⟨digits,v,rfl,inner,rfl⟩
  · rename_i digits
    exact .inr (.inl ⟨digits,rfl,numeral⟩)
  · obtain ⟨some,all,_⟩ := digitsValue_some numeral
    obtain ⟨c,rest,rfl⟩ := List.exists_cons_of_ne_nil some
    exact .inr (.inr ⟨c,rest,rfl,all c (by simp),numeral⟩)

theorem isDigit_not_isSpace {c : Byte} (digit : isDigit c = true) : isSpace c = false := by
  simp only [isDigit,isSpace,Bool.and_eq_true,decide_eq_true_eq,UInt8.le_iff_toNat_le,Bool.or_eq_false_iff,
    decide_eq_false_iff_not,Bool.and_eq_false_iff] at digit ⊢
  have low : (48 : UInt8).toNat = 48 := rfl
  have blank : (13 : UInt8).toNat = 13 := rfl
  refine ⟨?_,.inr (by omega)⟩
  rintro rfl
  have space : (32 : UInt8).toNat = 32 := rfl
  omega

/-- A numeral is read to its end. -/
theorem leadingValue_numeral {text : Bytes} {value : Int} (numeral : integerValue text = some value) :
    leadingValue text = value := by
  have whole : ∀ {digits : Bytes}, (∀ c ∈ digits, isDigit c = true) → digits.takeWhile isDigit = digits :=
    fun all => List.takeWhile_eq_self_iff.mpr all
  rcases integerValue_cases numeral with ⟨digits,v,rfl,inner,rfl⟩ | ⟨digits,rfl,inner⟩ | ⟨c,rest,rfl,digit,inner⟩
  · obtain ⟨_,all,rfl⟩ := digitsValue_some inner
    simp [leadingValue,isSpace,whole all]
  · obtain ⟨_,all,rfl⟩ := digitsValue_some inner
    simp [leadingValue,isSpace,whole all]
  · obtain ⟨_,all,rfl⟩ := digitsValue_some inner
    unfold leadingValue
    rw [List.dropWhile_cons_of_neg (by simp [isDigit_not_isSpace digit])]
    simp [isDigit_ne_sign digit,whole all]

/-- The bytes of a numeral. -/
theorem mem_numeral {text : Bytes} {value : Int} (numeral : integerValue text = some value) :
    ∀ c ∈ text, c = 45 ∨ c = 43 ∨ isDigit c = true := by
  intro c member
  rcases integerValue_cases numeral with ⟨digits,v,rfl,inner,rfl⟩ | ⟨digits,rfl,inner⟩ | ⟨d,rest,rfl,digit,inner⟩
  · rcases List.mem_cons.mp member with sign | later
    · exact .inl sign
    · exact .inr (.inr ((digitsValue_some inner).2.1 c later))
  · rcases List.mem_cons.mp member with sign | later
    · exact .inr (.inl sign)
    · exact .inr (.inr ((digitsValue_some inner).2.1 c later))
  · exact .inr (.inr ((digitsValue_some inner).2.1 c member))

theorem cString_numeral {text : Bytes} {value : Int} (numeral : integerValue text = some value) : cString text = text := by
  apply cString_of_not_mem
  intro nul
  exact absurd (mem_numeral numeral 0 nul) (by decide)

theorem integerValue_decimal (n : Nat) : integerValue (decimal n) = some (n : Int) := by
  have all := decimal_digits n
  have value : digitsValue (decimal n) = some (n : Int) := by
    rw [digitsValue,if_pos ⟨decimal_ne_nil n,List.all_eq_true.mpr all⟩,decimalValue_decimal]
  obtain ⟨c,rest,same⟩ := List.exists_cons_of_ne_nil (decimal_ne_nil n)
  rw [same] at all value ⊢
  rw [integerValue_unsigned (all c (by simp)),value]

/-- `atoi` gives the balanced residue of what `strtol` reads. -/
theorem atoi_toInt (text : Bytes) : (atoi text).toInt = (saturate (leadingValue text)).bmod 4294967296 := by
  rw [atoi,strtol_eq,Int32.toInt_ofInt]

/-- `atoi` gives zero for the multiples of the width of an `int` that are below the
    greatest `long`, and for what is below the least. -/
theorem atoi_eq_zero_iff (text : Bytes) : atoi text = 0 ↔ leadingValue text ≤ -9223372036854775808 ∨
    (leadingValue text < 9223372036854775807 ∧ 4294967296 ∣ leadingValue text) := by
  have same := @Int.bmod_emod (saturate (leadingValue text)) 4294967296
  have low := @Int.le_bmod (saturate (leadingValue text)) 4294967296 (by decide)
  have high := @Int.bmod_lt (saturate (leadingValue text)) 4294967296 (by decide)
  have zero : (0 : Int32).toInt = 0 := rfl
  rw [← Int32.toInt_inj,atoi_toInt,zero]
  unfold saturate at *
  omega

/-- The `size_t` made of the `int` of a numeral is the number it denotes, and is in
    the range of an `int`, exactly for the numbers in that range from zero on. -/
theorem sizeOfInt_numeral {text : Bytes} {value : Int} (numeral : integerValue text = some value) :
    ((sizeOfInt (atoi text)).toNat : Int) = value ∧ (sizeOfInt (atoi text)).toNat < 2147483648 ↔
      0 ≤ value ∧ value ≤ 2147483647 := by
  have printed := sizeOfInt_toNat (atoi text)
  rw [atoi_toInt,leadingValue_numeral numeral] at printed
  have low := @Int.le_bmod (saturate value) 4294967296 (by decide)
  have high := @Int.bmod_lt (saturate value) 4294967296 (by decide)
  have same := @Int.bmod_emod (saturate value) 4294967296
  unfold saturate at *
  omega

example : (sizeOfInt (atoi (lit " 44x")),sizeOfInt (atoi (lit "-1")),sizeOfInt (atoi (lit "4294967296"))) =
    (44,18446744073709551615,0) := by decide

end SysInfo.Text
