import INote.Library.Grouping
import Mathlib.Data.Nat.Digits.Defs
import Mathlib.Logic.Function.Basic

/-! # `hexString`

The loop of the pointer page appends two hexadecimal digits for each byte. In one pass it stops at
the limit, puts the separator before every eighth byte but the first, and appends the byte. Its text
is the groups of eight joined by the separator, with dots after it when the limit cuts bytes off.
Without a limit the bytes can be read back from the text, even if the separator is made of digits.
-/

namespace INote.SwiftNote

/-- `String(format: "%02x", byte)`. -/
def formatHex (byte : UInt8) : String :=
  String.ofList (List.leftpad 2 '0' (Nat.toDigits 16 byte.toNat))

def spacesInterval : ℕ := 8

/-- `if let limit = limit, index >= limit`. -/
def limitReached (limit : Option ℤ) (index : ℕ) : Bool :=
  match limit with
  | none => false
  | some limit => limit ≤ index

/-- The loop of `hexString`, from an index on. -/
def hexStringFrom (limit : Option ℤ) (separator : String) : ℕ → List UInt8 → String → String
  | _, [], result => result
  | index, byte :: rest, result =>
    if limitReached limit index then result ++ "..."
    else
      let result := if 0 < index ∧ index % spacesInterval = 0 then result ++ separator else result
      hexStringFrom limit separator (index + 1) rest (result ++ formatHex byte)

def hexString (bytes : List UInt8) (limit : Option ℤ) (separator : String) : String :=
  hexStringFrom limit separator 0 bytes ""

/-! ## The layout -/

/-- The two lower-case hexadecimal digits of a byte. -/
def hexDigits (byte : UInt8) : List Char :=
  [Nat.digitChar (byte.toNat / 16), Nat.digitChar (byte.toNat % 16)]

theorem toList_formatHex (byte : UInt8) : (formatHex byte).toList = hexDigits byte := by
  have bound := byte.toNat_lt
  rw [formatHex, String.toList_ofList, Nat.toDigits_eq_if (by omega), hexDigits]
  split
  case isTrue small =>
    rw [Nat.div_eq_of_lt small, Nat.mod_eq_of_lt small]
    rfl
  case isFalse large =>
    rw [Nat.toDigits_of_lt_base (by omega)]
    rfl

/-- The bytes that are written in full. -/
def dumped (bytes : List UInt8) : Option ℤ → List UInt8
  | none => bytes
  | some limit => bytes.take (max limit 0).toNat

def dots (bytes : List UInt8) (limit : Option ℤ) : String :=
  if limit.isSome ∧ (dumped bytes limit).length < bytes.length then "..." else ""

/-- Groups of eight bytes joined by the separator, and dots when the limit cuts bytes off. -/
def layout (bytes : List UInt8) (limit : Option ℤ) (separator : String) : String :=
  separator.intercalate (((dumped bytes limit).toChunks 8).map fun group =>
    String.join (group.map fun byte => String.ofList (hexDigits byte))) ++ dots bytes limit

/-- What is left of the limit at an index. -/
def limitFrom (limit : Option ℤ) (index : ℕ) : Option ℤ := limit.map fun limit => limit - index

theorem isSome_limitFrom (limit : Option ℤ) (index : ℕ) : (limitFrom limit index).isSome = limit.isSome :=
  Option.isSome_map

theorem dumped_of_limitReached {limit : Option ℤ} {index : ℕ} (bytes : List UInt8)
    (reached : limitReached limit index) : dumped bytes (limitFrom limit index) = [] := by
  cases limit with
  | none => contradiction
  | some limit =>
    have below : limit ≤ index := by simpa [limitReached] using reached
    rw [limitFrom, Option.map_some, dumped, show (max (limit - index) 0).toNat = 0 by omega, List.take_zero]

theorem dumped_cons {limit : Option ℤ} {index : ℕ} (byte : UInt8) (rest : List UInt8)
    (within : ¬ limitReached limit index) :
    dumped (byte :: rest) (limitFrom limit index) = byte :: dumped rest (limitFrom limit (index + 1)) := by
  cases limit with
  | none => rfl
  | some limit =>
    have above : index < limit := by simpa [limitReached] using within
    rw [limitFrom, limitFrom, Option.map_some, Option.map_some, dumped, dumped,
      show (max (limit - index) 0).toNat = (max (limit - (index + 1 : ℕ)) 0).toNat + 1 by omega,
      List.take_succ_cons]

theorem dots_of_limitReached {limit : Option ℤ} {index : ℕ} (byte : UInt8) (rest : List UInt8)
    (reached : limitReached limit index) : dots (byte :: rest) (limitFrom limit index) = "..." := by
  rw [dots, dumped_of_limitReached _ reached]
  cases limit with
  | none => contradiction
  | some limit => exact if_pos ⟨rfl, Nat.succ_pos _⟩

theorem dots_cons {limit : Option ℤ} {index : ℕ} (byte : UInt8) (rest : List UInt8)
    (within : ¬ limitReached limit index) :
    dots (byte :: rest) (limitFrom limit index) = dots rest (limitFrom limit (index + 1)) := by
  simp only [dots, dumped_cons _ _ within, isSome_limitFrom, List.length_cons, Nat.add_lt_add_iff_right]

theorem toList_appendSeparator (index : ℕ) (result separator : String) :
    (if 0 < index ∧ index % spacesInterval = 0 then result ++ separator else result).toList =
      result.toList ++ Grouping.gap 8 separator.toList index := by
  rw [Grouping.gap, spacesInterval]
  split
  · exact String.toList_append
  · exact (List.append_nil _).symm

/-- The loop, started at any index with any text. -/
theorem toList_hexStringFrom (limit : Option ℤ) (separator : String) (index : ℕ) (bytes : List UInt8)
    (result : String) :
    (hexStringFrom limit separator index bytes result).toList = result.toList ++
      (Grouping.write 8 separator.toList hexDigits index (dumped bytes (limitFrom limit index)) ++
        (dots bytes (limitFrom limit index)).toList) := by
  induction bytes generalizing index result with
  | nil =>
    have nothing : dumped [] (limitFrom limit index) = [] := by
      cases limit with
      | none => rfl
      | some limit => exact List.take_nil
    rw [hexStringFrom, dots, nothing, if_neg (fun cut => Nat.lt_irrefl _ cut.2), Grouping.write,
      String.toList_empty, List.append_nil, List.append_nil]
  | cons byte rest ih =>
    rw [hexStringFrom]
    split
    · next reached =>
      rw [dumped_of_limitReached _ reached, dots_of_limitReached _ _ reached, Grouping.write,
        String.toList_append, List.nil_append]
    · next within =>
      rw [ih, String.toList_append, toList_appendSeparator, toList_formatHex, dumped_cons _ _ within,
        dots_cons _ _ within, Grouping.write]
      simp only [List.append_assoc]

theorem toList_hexString (bytes : List UInt8) (limit : Option ℤ) (separator : String) :
    (hexString bytes limit separator).toList =
      Grouping.write 8 separator.toList hexDigits 0 (dumped bytes limit) ++ (dots bytes limit).toList := by
  have whole : limitFrom limit 0 = limit := by
    cases limit with
    | none => rfl
    | some limit => exact congrArg some (sub_zero limit)
  rw [hexString, toList_hexStringFrom, whole, String.toList_empty, List.nil_append]

/-- Without a limit there are no dots. -/
theorem toList_hexString_none (bytes : List UInt8) (separator : String) :
    (hexString bytes none separator).toList = Grouping.write 8 separator.toList hexDigits 0 bytes := by
  rw [toList_hexString, dots, if_neg (fun cut => Bool.false_ne_true cut.1), String.toList_empty,
    List.append_nil]
  rfl

/-- `hexString` writes the layout, for every limit. -/
theorem hexString_eq_layout (bytes : List UInt8) (limit : Option ℤ) (separator : String) :
    hexString bytes limit separator = layout bytes limit separator := by
  rw [← String.toList_inj, toList_hexString, layout, String.toList_append, String.toList_intercalate,
    List.map_map, Grouping.write_eq_intercalate (by omega)]
  congr 3
  funext group
  simp only [Function.comp_apply, String.toList_join, List.flatMap_map, String.toList_ofList]

/-! ## Reading a dump back -/

def digitValue (digit : Char) : Option ℕ := "0123456789abcdef".toList.idxOf? digit

/-- The byte written as two digits. -/
def byteOfDigits : List Char → Option UInt8
  | [high, low] => do
    let high ← digitValue high
    let low ← digitValue low
    return UInt8.ofNat (16 * high + low)
  | _ => none

/-- The bytes of a dump without limit, for the separator it was written with. -/
def decode (separator : String) (written : List Char) : Option (List UInt8) :=
  (Grouping.read 8 separator.toList.length 2 written.length 0 written).mapM byteOfDigits

theorem digitValue_digitChar {value : ℕ} (small : value < 16) :
    digitValue (Nat.digitChar value) = some value := by
  have digits : ∀ value < 16, digitValue (Nat.digitChar value) = some value := by decide
  exact digits value small

theorem byteOfDigits_hexDigits (byte : UInt8) : byteOfDigits (hexDigits byte) = some byte := by
  have bound := byte.toNat_lt
  rw [hexDigits, byteOfDigits, digitValue_digitChar (by omega), digitValue_digitChar (by omega)]
  simp only [Option.bind_eq_bind, Option.bind_some, Option.pure_def]
  rw [Nat.div_add_mod, UInt8.ofNat_toNat]

theorem mapM_byteOfDigits (bytes : List UInt8) : (bytes.map hexDigits).mapM byteOfDigits = some bytes := by
  induction bytes with
  | nil => rfl
  | cons byte rest ih =>
    rw [List.map_cons, List.mapM_cons, byteOfDigits_hexDigits, ih]
    rfl

theorem decode_hexString (separator : String) (bytes : List UInt8) :
    decode separator (hexString bytes none separator).toList = some bytes := by
  have uniform : ∀ byte ∈ bytes, (hexDigits byte).length = 2 := fun _ _ => rfl
  rw [decode, toList_hexString_none, Grouping.read_write (by omega) uniform 0
    (Grouping.length_le_length_write (by omega) uniform 0), mapM_byteOfDigits]

/-- A dump without limit determines its bytes, whatever the separator. -/
theorem hexString_lossless (separator : String) :
    (∀ bytes, decode separator (hexString bytes none separator).toList = some bytes) ∧
      Function.Injective fun bytes => (hexString bytes none separator).toList := by
  refine ⟨decode_hexString separator, fun left right same => ?_⟩
  have read := congrArg (decode separator) same
  rw [decode_hexString, decode_hexString] at read
  exact Option.some.inj read

end INote.SwiftNote
