import Ong.Lib.Access
import Ong.Lib.LittleEndian
import Ong.Lib.Printf
import Ong.Lib.Window
import Ong.Modbus.SensorReader

/-!
# The sub-attributes of a register array

A product description cuts an array of registers into values: each one has a type and a range of
bytes, the low byte of a register first.  The bytes of a range are copied register by register into
a buffer, and written as text into another one.

## Main results

* `contents_copy`: what a range is copied from
* `rightly_iff_sound`
-/

namespace Ong.Modbus

open List Window

open Printf (ascii)

/-- The registers of an array access. -/
abbrev Registers := { array : List UInt16 // array.length ≤ maxModbusAccessSize }

/-- A register in memory. -/
def wordBytes (r : UInt16) : List UInt8 := [r.toUInt8, (r >>> 8).toUInt8]

/-- The byte image of registers. -/
def image (array : List UInt16) : List UInt8 := array.flatMap wordBytes

/-! ### Types and texts -/

/-- The types of the values; any other number is dumped like an array. -/
inductive ValueType
  | bool
  | uint8
  | int8
  | uint16
  | int16
  | uint32
  | int32
  | float
  | double
  | dateTime
  | array
  | other
  deriving DecidableEq

def obixTypeFromModbus (type : String) : Option (String × ValueType) :=
  ([("bool", "o:bool", .bool), ("uint8", "o:int", .uint8), ("int8", "o:int", .int8),
    ("uint16", "o:int", .uint16), ("int16", "o:int", .int16), ("uint32", "o:int", .uint32),
    ("int32", "o:int", .int32), ("float", "o:real", .float), ("double", "o:real", .double),
    ("datetime", "o:abstime", .dateTime), ("array", "o:obj", .array)].find? (·.1 == type)).map (·.2)

/-- The texts of floating point numbers and of local times, which fit any buffer here. -/
structure Formats where
  real : List UInt8 → List UInt8
  date : List UInt8 → List UInt8
  real_length : ∀ val, (real val).length < 256
  date_length : ∀ val, (date val).length < 256

/-- A value of a fixed size; `VAL_IN_ERROR` for any other one. -/
def sized (n : Nat) (text : List UInt8 → List UInt8) (val : List UInt8) : List UInt8 :=
  if val.length = n then text val else ascii "##"

variable (val : List UInt8)

/-- `%u` and `%d` of the bytes. -/
def unsignedText : List UInt8 :=
  Printf.unsigned (LittleEndian.value val).toNat

def signedText (n : Nat) (val : List UInt8) : List UInt8 :=
  Printf.signed ((LittleEndian.value val).bmod (2 ^ (8 * n)))

def modbusValueToString (f : Formats) (val : List UInt8) : ValueType → List UInt8
  | .bool => sized 1 (fun val => if val.headD 0 ≠ 0 then ascii "true" else ascii "false") val
  | .uint8 => sized 1 unsignedText val
  | .int8 => sized 1 (signedText 1) val
  | .uint16 => sized 2 unsignedText val
  | .int16 => sized 2 (signedText 2) val
  | .uint32 => sized 4 unsignedText val
  | .int32 => sized 4 (signedText 4) val
  | .float => sized 4 f.real val
  | .double => sized 8 f.real val
  | .dateTime => sized 4 f.date val
  | .array | .other => ascii "0x" ++ val.flatMap Printf.hexPair

/-- The types whose text grows with the value. -/
def ValueType.isDumped : ValueType → Bool
  | .array | .other => true
  | _ => false

/-! ### Offsets -/

/-- `%u` of `sscanf`: the number, and the text behind it. -/
def scanUnsigned (text : List UInt8) : Option (Nat × List UInt8) :=
  match Printf.scan text with
  | .number negative magnitude =>
    let text := text.dropWhile Printf.isSpace
    let digits := if text.head? = some Printf.minus ∨ text.head? = some Printf.plus then text.tail
      else text
    -- an `unsigned long`, of which the lowest 32 bits are stored
    let n := if 2 ^ 64 ≤ magnitude then 2 ^ 64 - 1
      else if negative then (2 ^ 64 - magnitude) % 2 ^ 64 else magnitude
    some (n % 2 ^ 32, digits.dropWhile Decimal.isDigit)
  | _ => none

/-- A literal part of a format. -/
def behind (literal : String) (text : List UInt8) : Option (List UInt8) :=
  if (ascii literal).isPrefixOf text then some (text.drop (ascii literal).length) else none

/-- `sscanf(param, "/beginbyte/%u/endbyte/%u/", ...)`: the numbers that are assigned. -/
def scanOffsets (param : List UInt8) : List Nat :=
  match behind "/beginbyte/" param with
  | none => []
  | some text =>
    match scanUnsigned text with
    | none => []
    | some (offsetBeg, text) =>
      match behind "/endbyte/" text with
      | none => [offsetBeg]
      | some text =>
        match scanUnsigned text with
        | none => [offsetBeg]
        | some (offsetEnd, _) => [offsetBeg, offsetEnd]

/-! ### The extraction -/

/-- The local buffers. -/
inductive Buffer
  | valArray
  | strVal

def Buffer.size : Buffer → Nat
  | .valArray => 256
  | .strVal => 256

/-- One round of the loop that copies. -/
def copyRound (array : List UInt16) (offsetBeg valSize : Nat) (valArray : Nat → UInt8) (i : Nat) :
    Nat → UInt8 :=
  let value := array.getD ((offsetBeg + i) / 2) 0
  let value := if valSize = 1 ∧ offsetBeg % 2 = 1 then value >>> 8 else value
  Window.write valArray i (wordBytes value)

/-- `i = 0, 2, …` below the size. -/
def rounds (valSize : Nat) : List Nat := List.range' 0 ((valSize + 1) / 2) 2

/-- The loop, behind the `memset`. -/
def copy (array : List UInt16) (offsetBeg valSize : Nat) : Nat → UInt8 :=
  (rounds valSize).foldl (copyRound array offsetBeg valSize) fun _ => 0

structure SubAttribute where
  type : Option String
  name : Option String
  offset : Option (List UInt8)

/-- The locals of the function that outlive a round. -/
structure Locals where
  modbusType : ValueType
  offsetBeg : Nat
  offsetEnd : Nat

structure Obix where
  type : String
  name : String
  val : List UInt8

/-- What becomes of a sub-attribute: what `modbusValueToString` is handed, what is written, and what
the report gets. -/
structure Outcome where
  handed : Option (ValueType × List UInt8)
  writes : List (Access Buffer)
  added : Option Obix

def Outcome.nothing : Outcome := ⟨none, [], none⟩

/-- The body of the loop over the sub-attributes. -/
def extract (f : Formats) (array : List UInt16) (locals : Locals) :
    Option SubAttribute → Outcome × Locals
  | none | some ⟨none, _, _⟩ => (.nothing, locals)
  | some ⟨some type, name, offset⟩ =>
    -- an unknown type makes no object, and leaves the one of the round before
    let obixAttr := obixTypeFromModbus type
    let locals := { locals with modbusType := obixAttr.elim locals.modbusType (·.2) }
    match name, offset with
    | none, _ | some _, none => (.nothing, locals)
    | some name, some param =>
      let offsets := scanOffsets param
      let locals := { locals with
        offsetBeg := (offsets[0]?).getD locals.offsetBeg
        offsetEnd := (offsets[1]?).getD locals.offsetEnd }
      if offsets.length = 2 ∧ locals.offsetBeg ≤ locals.offsetEnd ∧
          locals.offsetEnd < array.length * 2 then
        let valSize := (locals.offsetEnd - locals.offsetBeg + 1) % 2 ^ 16
        let val := Window.contents (copy array locals.offsetBeg valSize) valSize
        let strVal := modbusValueToString f val locals.modbusType
        (⟨some (locals.modbusType, val),
          (rounds valSize).map (.use .valArray · 2) ++ [.use .strVal 0 (strVal.length + 1)],
          obixAttr.map fun o => ⟨o.1, name, strVal⟩⟩, locals)
      else (.nothing, locals)

def extractAll (f : Formats) (array : List UInt16) :
    Locals → List (Option SubAttribute) → List Outcome
  | _, [] => []
  | locals, sub :: rest =>
    let (outcome, locals) := extract f array locals sub
    outcome :: extractAll f array locals rest

/-- `Attr_t_buildXoFromProductDescriptor`, for a model of the attribute; `modbusType` is what the
uninitialised variable holds. -/
def buildXoFromProductDescriptor (f : Formats) (modbusType : ValueType) (array : Registers)
    (xoModel : List (Option SubAttribute)) : List Outcome :=
  extractAll f array.1 ⟨modbusType, 0, 0⟩ xoModel

/-! ### What is expected -/

/-- The type of a sub-attribute, if it is a known one. -/
def known : Option SubAttribute → Option (String × ValueType)
  | some ⟨some type, _, _⟩ => obixTypeFromModbus type
  | _ => none

/-- The name and the range of a sub-attribute that has them, with a type of whatever name. -/
def taken (array : List UInt16) : Option SubAttribute → Option (String × Nat × Nat)
  | some ⟨some _, some name, some param⟩ =>
    match scanOffsets param with
    | [b, e] => if b ≤ e ∧ e < 2 * array.length then some (name, b, e) else none
    | _ => none
  | _ => none

/-- The bytes `b` to `e` of the image. -/
def slice (array : List UInt16) (b e : Nat) : List UInt8 := ((image array).drop b).take (e - b + 1)

/-- A valid sub-attribute is handed its bytes and added to the report, another one is skipped, and
the buffers are written inside. -/
structure ExtractedRightly (f : Formats) (array : List UInt16) (sub : Option SubAttribute)
    (o : Outcome) :
    Prop where
  inside : Access.Inside Buffer.size 0 o.writes
  handed : ∀ obix type name b e, known sub = some (obix, type) →
    taken array sub = some (name, b, e) → o.handed = some (type, slice array b e)
  added : ∀ obix type name b e, known sub = some (obix, type) →
    taken array sub = some (name, b, e) →
      o.added = some ⟨obix, name, modbusValueToString f (slice array b e) type⟩
  skipped : known sub = none ∨ taken array sub = none → o.added = none

/-- The type that `modbusType` holds behind a sub-attribute. -/
def typeAfter (type : ValueType) (sub : Option SubAttribute) : ValueType :=
  (known sub).elim type (·.2)

/-- A range that is copied fits both buffers, and begins with a register, or is one byte, or has the
same bytes as the one in front of it. -/
def SoundAt (array : List UInt16) (type : ValueType) (sub : Option SubAttribute) : Prop :=
  ∀ name b e, taken array sub = some (name, b, e) →
    e - b + 1 ≤ 256 ∧ (type.isDumped = true → e - b + 1 ≤ 126) ∧
      ((known sub).isSome = true → b % 2 = 0 ∨ b = e ∨
        ∀ j, b ≤ j → j ≤ e → (image array)[j - 1]? = (image array)[j]?)

/-- So are all of a description; an unknown type is copied under the one before it. -/
def Sound (array : List UInt16) : ValueType → List (Option SubAttribute) → Prop
  | _, [] => True
  | type, sub :: rest =>
    SoundAt array (typeAfter type sub) sub ∧ Sound array (typeAfter type sub) rest

variable {array : List UInt16} {b e m n : Nat}

/-! ### The copy -/

theorem length_wordBytes (r : UInt16) : (wordBytes r).length = 2 := rfl

theorem drop_image (n : Nat) : (image array).drop (2 * n) = image (array.drop n) := by
  induction n generalizing array with
  | zero => rfl
  | succ n ih =>
    cases array with
    | nil => simp [image]
    | cons r array =>
      rw [drop_succ_cons, ← ih]
      rfl

theorem take_image (n : Nat) : (image array).take (2 * n) = image (array.take n) := by
  induction n generalizing array with
  | zero => rfl
  | succ n ih =>
    cases array with
    | nil => simp [image]
    | cons r array =>
      rw [take_succ_cons, image, image, flatMap_cons, flatMap_cons, ← image,
        ← image, ← ih, show 2 * (n + 1) = (wordBytes r).length + 2 * n by
          rw [length_wordBytes]; omega, take_length_add_append]

theorem contents_rounds (value : Nat → UInt16) (m : Nat) :
    contents ((range' 0 m 2).foldl (fun valArray i =>
      write valArray i (wordBytes (value i))) fun _ => 0) (2 * m) =
        (range m).flatMap fun k => wordBytes (value (2 * k)) := by
  induction m with
  | zero => rfl
  | succ m ih =>
    rw [range'_concat, foldl_append, foldl_cons, foldl_nil, range_succ,
      flatMap_append, ← ih, Nat.zero_add, flatMap_cons, flatMap_nil,
      append_nil]
    exact contents_write (wordBytes (value (2 * m)))

theorem map_getD_range (h : n + m ≤ array.length) :
    (range m).map (fun k => array.getD (n + k) 0) = (array.drop n).take m := by
  apply ext_getElem?
  intro k
  rw [getElem?_map, getElem?_take, getElem?_drop]
  by_cases hk : k < m
  · rw [getElem?_range hk, if_pos hk, Option.map_some, getD_eq_getElem?_getD,
      getElem?_eq_getElem (by omega), Option.getD_some]
  · rw [getElem?_eq_none (by simpa using hk), if_neg hk, Option.map_none]

/-- **A range is copied** from the register of its first byte on. -/
theorem contents_copy (hle : b ≤ e) (hlt : e < 2 * array.length) (h : b % 2 = 0 ∨ b ≠ e) :
    contents (copy array b (e - b + 1)) (e - b + 1) =
      ((image array).drop (2 * (b / 2))).take (e - b + 1) := by
  have hround : copyRound array b (e - b + 1) = fun valArray i =>
      write valArray i (wordBytes (array.getD ((b + i) / 2) 0)) := by
    funext valArray i
    rw [copyRound, if_neg (by omega)]
  have hm : e - b + 1 ≤ 2 * ((e - b + 1 + 1) / 2) := by omega
  have hvalue (k : Nat) : (b + 2 * k) / 2 = b / 2 + k := by omega
  rw [copy, hround, rounds, ← take_contents hm, contents_rounds]
  have hmap : ((range ((e - b + 1 + 1) / 2)).flatMap fun k =>
      wordBytes (array.getD ((b + 2 * k) / 2) 0)) =
        image ((array.drop (b / 2)).take ((e - b + 1 + 1) / 2)) := by
    rw [← map_getD_range (by omega), image, flatMap_map]
    simp only [hvalue]
  rw [hmap, ← take_image, ← drop_image, take_take, Nat.min_eq_left hm]

theorem contents_copy_single (hlt : b < 2 * array.length) (h : b % 2 = 1) :
    contents (copy array b 1) 1 = ((image array).drop b).take 1 := by
  have hregister : array.drop (b / 2) = array.getD (b / 2) 0 :: array.drop (b / 2 + 1) := by
    rw [drop_eq_getElem_cons (by omega), getD_eq_getElem?_getD,
      getElem?_eq_getElem (by omega), Option.getD_some]
  have hdrop : (image array).drop b =
      ((array.getD (b / 2) 0) >>> 8).toUInt8 :: image (array.drop (b / 2 + 1)) := by
    rw [show b = 2 * (b / 2) + 1 by omega, ← drop_drop, drop_image,
      show (2 * (b / 2) + 1) / 2 = b / 2 by omega, hregister]
    rfl
  rw [hdrop, take_succ_cons, take_zero]
  simp only [copy, rounds, contents]
  simp [copyRound, h, write, wordBytes]

theorem contents_copy_iff (hle : b ≤ e) (hlt : e < 2 * array.length) :
    contents (copy array b (e - b + 1)) (e - b + 1) = slice array b e ↔
      b % 2 = 0 ∨ b = e ∨ ∀ j, b ≤ j → j ≤ e → (image array)[j - 1]? = (image array)[j]? := by
  by_cases heven : b % 2 = 0
  · refine iff_of_true ?_ (.inl heven)
    rw [contents_copy hle hlt (.inl heven), slice, show 2 * (b / 2) = b by omega]
  · by_cases hone : b = e
    · refine iff_of_true ?_ (.inr (.inl hone))
      subst hone
      rw [slice, Nat.sub_self]
      exact contents_copy_single hlt (by omega)
    · rw [contents_copy hle hlt (.inr hone), slice, show 2 * (b / 2) = b - 1 by omega,
        or_iff_right heven, or_iff_right hone, List.ext_getElem?_iff]
      constructor
      · intro h j hj hje
        have hat := h (j - b)
        rw [getElem?_take, getElem?_take, if_pos (by omega), if_pos (by omega),
          getElem?_drop, getElem?_drop, show b - 1 + (j - b) = j - 1 by omega,
          show b + (j - b) = j by omega] at hat
        exact hat
      · intro h k
        rw [getElem?_take, getElem?_take]
        split
        · rw [getElem?_drop, getElem?_drop, ← h (b + k) (by omega) (by omega),
            show b + k - 1 = b - 1 + k by omega]
        · rfl

/-! ### The buffers -/

theorem length_sized {text : List UInt8 → List UInt8} {val : List UInt8}
    (h : (text val).length < 256) : (sized n text val).length < 256 := by
  rw [sized]
  split
  · exact h
  · decide

theorem length_unsigned (n : Nat) : (Printf.unsigned n).length ≤ 20 := by
  rw [Printf.unsigned]
  split
  · decide
  · exact Decimal.length_textLoop_le

theorem length_unsignedText : (unsignedText val).length < 256 :=
  Nat.lt_of_le_of_lt (length_unsigned _) (by decide)

theorem length_signedText : (signedText n val).length < 256 := by
  have h := length_unsigned ((LittleEndian.value val).bmod (2 ^ (8 * n))).natAbs
  rw [signedText, Printf.signed]
  split
  · rw [length_cons]
    omega
  · omega

theorem length_flatMap_hexPair :
    (val.flatMap Printf.hexPair).length = 2 * val.length := by
  induction val with
  | nil => rfl
  | cons c val ih =>
    rw [flatMap_cons, length_append, ih, length_cons, Printf.hexPair,
      length_cons, length_singleton]
    omega

theorem length_modbusValueToString (f : Formats) (val : List UInt8) (type : ValueType) :
    (modbusValueToString f val type).length < 256 ↔
      (type.isDumped = true → val.length ≤ 126) := by
  have hdump : (ascii "0x" ++ val.flatMap Printf.hexPair).length < 256 ↔ val.length ≤ 126 := by
    rw [length_append, length_flatMap_hexPair, show (ascii "0x").length = 2 from rfl]
    omega
  have hfits {c : Prop} (h : c) : c ↔ (false = true → val.length ≤ 126) :=
    iff_of_true h nofun
  cases type with
  | bool =>
    refine hfits ?_
    rw [modbusValueToString]
    refine length_sized ?_
    split <;> decide
  | uint8 | uint16 | uint32 => exact hfits (length_sized (length_unsignedText val))
  | int8 | int16 | int32 => exact hfits (length_sized (length_signedText val))
  | float | double => exact hfits (length_sized (f.real_length val))
  | dateTime => exact hfits (length_sized (f.date_length val))
  | array | other => exact hdump.trans ⟨fun h _ => h, fun h => h rfl⟩

theorem inside_rounds (h : 0 < n) :
    Access.Inside Buffer.size 0 ((rounds n).map (.use .valArray · 2)) ↔ n ≤ 256 := by
  simp only [Access.Inside, forall_mem_map, rounds, Access.within_use, Buffer.size]
  constructor
  · intro hall
    have hlast := hall (2 * ((n + 1) / 2 - 1)) (mem_range'.mpr ⟨(n + 1) / 2 - 1, by omega⟩)
    omega
  · intro hle i hi
    obtain ⟨k, hk, rfl⟩ := mem_range'.mp hi
    omega

/-! ### One sub-attribute -/

variable {f : Formats} {locals : Locals} {sub : Option SubAttribute} {name : String}

theorem extract_type : (extract f array locals sub).2.modbusType =
    typeAfter locals.modbusType sub := by
  match sub with
  | none => rfl
  | some ⟨none, _, _⟩ => rfl
  | some ⟨some _, none, _⟩ => rfl
  | some ⟨some _, some _, none⟩ => rfl
  | some ⟨some type, some name, some param⟩ =>
    simp only [extract]
    split <;> rfl

theorem extract_nothing (h : taken array sub = none) :
    (extract f array locals sub).1 = .nothing := by
  match sub with
  | none => rfl
  | some ⟨none, _, _⟩ => rfl
  | some ⟨some _, none, _⟩ => rfl
  | some ⟨some _, some _, none⟩ => rfl
  | some ⟨some type, some name, some param⟩ =>
    simp only [taken] at h
    simp only [extract]
    rw [if_neg]
    rintro ⟨hlength, hle, hlt⟩
    obtain ⟨b, e, hoffsets⟩ := length_eq_two.mp hlength
    rw [hoffsets] at h hle hlt
    have hrange : b ≤ e ∧ e < 2 * array.length := ⟨hle, by rw [Nat.mul_comm]; exact hlt⟩
    dsimp only at h
    rw [if_pos hrange] at h
    cases h

theorem extract_taken (f : Formats) (locals : Locals) (hsize : array.length ≤ maxModbusAccessSize)
    (h : taken array sub = some (name, b, e)) :
    b ≤ e ∧ e < 2 * array.length ∧
      (extract f array locals sub).1 =
        let val := contents (copy array b (e - b + 1)) (e - b + 1)
        let strVal := modbusValueToString f val (typeAfter locals.modbusType sub)
        ⟨some (typeAfter locals.modbusType sub, val),
          (rounds (e - b + 1)).map (.use .valArray · 2) ++ [.use .strVal 0 (strVal.length + 1)],
          (known sub).map fun o => ⟨o.1, name, strVal⟩⟩ := by
  match sub with
  | none => cases h
  | some ⟨none, _, _⟩ => cases h
  | some ⟨some _, none, _⟩ => cases h
  | some ⟨some _, some _, none⟩ => cases h
  | some ⟨some type, some name', some param⟩ =>
    simp only [taken] at h
    split at h
    · rename_i b' e' hoffsets
      split at h
      · rename_i hrange
        obtain ⟨rfl, rfl, rfl⟩ : name' = name ∧ b' = b ∧ e' = e := by simpa using h
        -- the size is kept in 16 bits, which is enough for the registers of an access
        have hmod : (e' - b' + 1) % 2 ^ 16 = e' - b' + 1 := by
          rw [maxModbusAccessSize] at hsize
          omega
        refine ⟨hrange.1, hrange.2, ?_⟩
        simp only [extract, hoffsets]
        rw [if_pos ⟨rfl, hrange.1, by rw [Nat.mul_comm]; exact hrange.2⟩]
        simp only [getElem?_cons_zero, getElem?_cons_succ, Option.getD_some, hmod]
        rfl
      · cases h
    · cases h

theorem extract_iff (hsize : array.length ≤ maxModbusAccessSize) :
    ExtractedRightly f array sub (extract f array locals sub).1 ↔
      SoundAt array (typeAfter locals.modbusType sub) sub := by
  cases htaken : taken array sub with
  | none =>
    rw [extract_nothing htaken]
    refine iff_of_true ⟨Access.inside_nil, ?_, ?_, fun _ => rfl⟩ ?_
    · intro obix type name b e _ h
      rw [htaken] at h
      cases h
    · intro obix type name b e _ h
      rw [htaken] at h
      cases h
    · intro name b e h
      rw [htaken] at h
      cases h
  | some range =>
    obtain ⟨name, b, e⟩ := range
    have hsame {name' : String} {b' e' : Nat} (h : taken array sub = some (name', b', e')) :
        name = name' ∧ b = b' ∧ e = e' := by simpa [htaken] using h
    obtain ⟨hle, hlt, heq⟩ := extract_taken f locals hsize htaken
    have hcopy := contents_copy_iff hle hlt
    have htext := length_modbusValueToString f
      (contents (copy array b (e - b + 1)) (e - b + 1)) (typeAfter locals.modbusType sub)
    rw [length_contents] at htext
    have hinside : Access.Inside Buffer.size 0 (extract f array locals sub).1.writes ↔
        e - b + 1 ≤ 256 ∧
          ((typeAfter locals.modbusType sub).isDumped = true → e - b + 1 ≤ 126) := by
      rw [heq]
      rw [Access.inside_append, inside_rounds (Nat.succ_pos _), ← htext, Access.inside_cons,
        Access.within_use, Nat.zero_add, Buffer.size, and_iff_left Access.inside_nil]
      exact Iff.rfl
    constructor
    · intro h name' b' e' htaken'
      obtain ⟨rfl, rfl, rfl⟩ := hsame htaken'
      obtain ⟨hfits, hdumped⟩ := hinside.mp h.inside
      refine ⟨hfits, hdumped, fun hknown => hcopy.mp ?_⟩
      obtain ⟨⟨obix, type⟩, hknown⟩ := Option.isSome_iff_exists.mp hknown
      have hhanded := h.handed obix type name b e hknown htaken
      rw [heq] at hhanded
      exact (Prod.mk.inj (Option.some.inj hhanded)).2
    · intro h
      obtain ⟨hfits, hdumped, hbytes⟩ := h name b e htaken
      have hcopied {obix : String} {type : ValueType} (hknown : known sub = some (obix, type)) :
          contents (copy array b (e - b + 1)) (e - b + 1) = slice array b e :=
        hcopy.mpr (hbytes (Option.isSome_of_eq_some hknown))
      have htype {obix : String} {type : ValueType} (hknown : known sub = some (obix, type)) :
          typeAfter locals.modbusType sub = type := by
        rw [typeAfter, hknown]
        rfl
      refine ⟨hinside.mpr ⟨hfits, hdumped⟩, ?_, ?_, ?_⟩
      · intro obix type name' b' e' hknown htaken'
        obtain ⟨rfl, rfl, rfl⟩ := hsame htaken'
        rw [heq, ← hcopied hknown, htype hknown]
      · intro obix type name' b' e' hknown htaken'
        obtain ⟨rfl, rfl, rfl⟩ := hsame htaken'
        rw [heq, ← hcopied hknown, htype hknown, hknown]
        rfl
      · rintro (hunknown | hnone)
        · rw [heq, hunknown]
          rfl
        · rw [htaken] at hnone
          cases hnone

/-! ### The whole description -/

theorem extractAll_iff (hsize : array.length ≤ maxModbusAccessSize)
    (subs : List (Option SubAttribute)) (locals : Locals) :
    Forall₂ (ExtractedRightly f array) subs (extractAll f array locals subs) ↔
      Sound array locals.modbusType subs := by
  induction subs generalizing locals with
  | nil => exact iff_of_true .nil trivial
  | cons sub rest ih =>
    rw [extractAll, forall₂_cons, extract_iff hsize, ih, extract_type]
    exact Iff.rfl

/-- **Which descriptions are extracted rightly**, each sub-attribute on its own. -/
theorem rightly_iff_sound (f : Formats) (modbusType : ValueType) (array : Registers)
    (xoModel : List (Option SubAttribute)) :
    List.Forall₂ (ExtractedRightly f array.1) xoModel
        (buildXoFromProductDescriptor f modbusType array xoModel) ↔
      Sound array.1 modbusType xoModel :=
  extractAll_iff array.2 xoModel ⟨modbusType, 0, 0⟩

/-- The bytes 1 and 2 of two registers: the bytes 0 and 1 are handed instead. -/
theorem not_rightly_odd :
    ¬List.Forall₂
      (ExtractedRightly ⟨fun _ => [], fun _ => [], fun _ => by decide, fun _ => by decide⟩
        [0x0201, 0x0403])
      [some ⟨some "uint16", some "V", some (ascii "/beginbyte/1/endbyte/2/")⟩]
      (buildXoFromProductDescriptor
        ⟨fun _ => [], fun _ => [], fun _ => by decide, fun _ => by decide⟩ .bool
        ⟨[0x0201, 0x0403], by decide⟩
        [some ⟨some "uint16", some "V", some (ascii "/beginbyte/1/endbyte/2/")⟩]) := by
  intro h
  rw [buildXoFromProductDescriptor, extractAll, forall₂_cons] at h
  have hhanded := h.1.handed "o:int" .uint16 "V" 1 2 (by decide) (by decide)
  revert hhanded
  decide

end Ong.Modbus
