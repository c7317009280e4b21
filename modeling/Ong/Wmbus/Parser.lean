import Ong.Lib.Access
import Ong.Lib.LittleEndian
import Ong.Lib.Printf
import Ong.Lib.Significand
import Ong.Lib.Window

/-!
# The parser of application data

Application data are records: a DIF with DIFE bytes, a VIF perhaps with one VIFE byte, and the data.
The parser takes one byte after the other through its states, and reads the data at once, when it
comes to their first byte.

## Main results

* `loop_eq`: the loop ends
* `rounds_step`, `rounds_stop`: its passes one by one
-/

namespace Ong.Wmbus

open Printf (ascii)
open Window (span)

/-- What has a bound: the buffer of the value, and the bits of an `int`. -/
inductive ParserBound
  | valBuffer
  | int
  deriving DecidableEq

def ParserBound.size : ParserBound → Nat
  | .valBuffer => 256
  | .int => 32

/-- What `valBuffer` is written from: the `float` that `obixNormalizer` is given, which scales it and
the VIB to the unit of the report, or a text.  A `float` is the integer that it was converted from,
rounded, or the bytes that were copied into it. -/
inductive Value
  | integer (n : Int)
  | real (bytes : List UInt8)
  | text (bytes : List UInt8)
  deriving DecidableEq

/-- What is known of a record when its data have been read, with the place of its first byte and the
place where the next record begins; the report is left out when `valBuffer` is empty. -/
structure Evaluation where
  first : Nat
  next : Nat
  storage : Option Nat
  function : Nat
  coding : Nat
  tarif : Nat
  subunit : Nat
  vib : Nat
  valBuffer : Option Value
  deriving DecidableEq

/-! ### The parts of a byte -/

variable (c : UInt8)

def storageDigit : Nat := c.toNat % 16

def tarifDigit : Nat := c.toNat / 16 % 4

def subunitDigit : Nat := c.toNat / 64 % 2

theorem byte_parts : (c &&& 0x0F).toNat = storageDigit c ∧
    ((c &&& 0x30) >>> 4).toNat = tarifDigit c ∧
    (if c &&& 0x40 ≠ 0 then 1 else 0) = subunitDigit c := by
  have hall : ∀ t : Fin 256, (UInt8.ofFin t &&& 0x0F).toNat = storageDigit (UInt8.ofFin t) ∧
      ((UInt8.ofFin t &&& 0x30) >>> 4).toNat = tarifDigit (UInt8.ofFin t) ∧
      (if UInt8.ofFin t &&& 0x40 ≠ 0 then 1 else 0) = subunitDigit (UInt8.ofFin t) := by
    decide +kernel
  exact hall c.toFin

theorem extended_iff : c &&& 0x80 ≠ 0 ↔ 128 ≤ c.toNat := by
  have hall : ∀ t : Fin 256, UInt8.ofFin t &&& 0x80 ≠ 0 ↔ 128 ≤ (UInt8.ofFin t).toNat := by
    decide +kernel
  exact hall c.toFin

/-! ### The data -/

def bcdDecodeTable : List UInt8 := ascii "0123456789AbC E-"

/-- The two digits of each byte. -/
def bcdDecode (bytes : List UInt8) : List UInt8 :=
  bytes.flatMap fun c : UInt8 =>
    [bcdDecodeTable.getD ((c &&& 0xF0) >>> 4).toNat 0, bcdDecodeTable.getD (c &&& 0x0F).toNat 0]

/-- A two's complement. -/
def signed (bytes : List UInt8) : Int := (LittleEndian.value bytes).bmod (2 ^ (8 * bytes.length))

/-- The conversion of an integer to `float`. -/
def toFloat (n : Int) : Int := Significand.round 24 n

/-- What a coding does: the value, the number of bytes it reads, the cells of `valBuffer` that it
writes, and what it adds to the index. -/
structure Field where
  valBuffer : Option Value
  count : Nat
  cells : Nat
  advance : Nat

/-- A number of so many bytes, which `snprintf` writes. -/
def Field.number (v : Value) (n : Nat) : Field := ⟨some v, n, 256, n - 1⟩

/-- The data of variable length; `none` where the function returns. -/
def readVariable (mem : Nat → UInt8) (i : Nat) : Option Field :=
  let lvar := (mem i).toNat
  if lvar ≤ 0xBF then some ⟨some (.text (span mem (i + 1) lvar)), lvar + 1, lvar + 1, lvar⟩
  else if 0xC0 ≤ lvar ∧ lvar ≤ 0xC9 then
    let n := lvar - 0xC0
    some ⟨some (.text (bcdDecode (span mem (i + 1) n))), n + 1, 2 * n + 1, n⟩
  else if 0xD0 ≤ lvar ∧ lvar ≤ 0xD9 then
    let n := lvar - 0xD0
    some ⟨some (.text (ascii "-" ++ bcdDecode (span mem (i + 1) n))), n + 1, 2 * n + 2, n⟩
  else if 0xE0 ≤ lvar ∧ lvar ≤ 0xEF then none
  else if lvar = 0xF8 then
    -- four bytes behind the length, of which the index passes three
    some ⟨some (.real (span mem (i + 1) 4)), 5, 256, 3⟩
  else some ⟨none, 1, 0, 0⟩

/-- `READ_DATA`, by the coding; `none` where the function returns. -/
def readData (mem : Nat → UInt8) (i coding : Nat) : Option Field :=
  match coding with
  | 1 => some (.number (.integer (toFloat (mem i).toNat)) 1)
  | 2 => some (.number (.integer (toFloat (signed (span mem i 2)))) 2)
  | 3 => some (.number (.integer (toFloat (LittleEndian.value (span mem i 3)))) 3)
  | 4 => some (.number (.integer (toFloat (signed (span mem i 4)))) 4)
  | 5 => some (.number (.real (span mem i 4)) 4)
  | 6 => some ⟨none, 6, 0, 5⟩ -- `value` is set, but nothing is written
  | 7 => some (.number (.integer (toFloat (signed (span mem i 8)))) 8)
  | 9 | 10 | 11 | 12 | 14 =>
    let n := coding - 8
    some ⟨some (.text (bcdDecode (span mem i n))), n, 2 * n + 1, n - 1⟩
  | 13 => readVariable mem i
  | 8 | 15 => some ⟨none, 1, 0, 0⟩
  | _ => some ⟨none, 1, 1, 0⟩

/-! ### The loop -/

inductive ParserState
  | readDif
  | readDife
  | readVif
  | readVife
  | readData

/-- The locals.  `storage` is `none` after a shift that has no meaning for an `int`; `first` is what
an observer keeps of the place of the DIF. -/
structure Parser where
  state : ParserState
  storage : Option Nat
  function : Nat
  coding : Nat
  tarif : Nat
  subunit : Nat
  maxDife : Nat
  vib : Nat
  first : Nat

/-- `storage |= nibble << amount` for an `int`. -/
def orShifted (storage nibble amount : Nat) : Option Nat :=
  if amount < 32 ∧ nibble <<< amount < 2 ^ 31 then some (storage ||| nibble <<< amount) else none

/-- One pass: what it touches, the record it evaluates, and the index and the locals behind the
`switch`; `none` where the function returns. -/
structure Round where
  accesses : List (Access ParserBound)
  evaluation : Option Evaluation
  next : Option (Nat × Parser)

def readDif (i : Nat) (p : Parser) : Parser where
  state := if c &&& 0x80 ≠ 0 then .readDife else .readVif
  storage := some (if c &&& 0x40 ≠ 0 then 1 else 0)
  function := ((c &&& 0x30) >>> 4).toNat
  coding := (c &&& 0x0F).toNat
  tarif := 0
  subunit := 0
  maxDife := p.maxDife
  vib := 0
  first := i

/-- `READ_DIFE`, up to the test for another DIFE byte. -/
def readDife (p : Parser) : Parser :=
  let n := 10 - p.maxDife
  { p with
    storage := p.storage.bind fun storage => orShifted storage (c &&& 0x0F).toNat (4 * n + 1)
    tarif := p.tarif ||| ((c &&& 0x30) >>> 4).toNat <<< (2 * n)
    subunit := p.subunit ||| (if c &&& 0x40 ≠ 0 then 1 else 0) <<< n }

def round (mem : Nat → UInt8) (i : Nat) (p : Parser) : Round :=
  let c := mem i
  match p.state with
  | .readDif => ⟨[.read i 1, .use .valBuffer 0 1], none, some (i, readDif c i p)⟩
  | .readDife =>
    let n := 10 - p.maxDife
    ⟨[.read i 1, .use .int (4 * n + 1) 1, .use .int (2 * n) 1, .use .int n 1], none,
      if c &&& 0x80 ≠ 0 then
        -- the count of the DIFE bytes goes on over the records
        if p.maxDife - 1 = 0 then none
        else some (i, { readDife c p with maxDife := p.maxDife - 1 })
      else some (i, { readDife c p with state := .readVif })⟩
  | .readVif =>
    ⟨[.read i 1], none,
      if c &&& 0x80 ≠ 0 then
        if c = 0xFB ∨ c = 0xFD then some (i, { p with vib := c.toNat, state := .readVife })
        else none
      else some (i, { p with vib := c.toNat, state := .readData })⟩
  | .readVife =>
    ⟨[.read i 1], none, some (i, { p with vib := (p.vib <<< 8) + c.toNat, state := .readData })⟩
  | .readData =>
    match readData mem i p.coding with
    | none => ⟨[.read i 1], none, none⟩
    | some f =>
      ⟨[.read i f.count, .use .valBuffer 0 f.cells],
        some ⟨p.first, i + f.advance + 1, p.storage, p.function, p.coding, p.tarif, p.subunit,
          p.vib, f.valBuffer⟩,
        some (i + f.advance, { p with state := .readDif })⟩

/-- `for (i = 0; i < len; i++)`; `none` if the fuel is used up. -/
def loop (mem : Nat → UInt8) (len : Int) : Nat → Nat → Parser → Option (List Round)
  | 0, i, _ => if (i : Int) < len then none else some []
  | fuel + 1, i, p =>
    if (i : Int) < len then
      match (round mem i p).next with
      | none => some [round mem i p]
      | some (i', p') => (loop mem len fuel (i' + 1) p').map (round mem i p :: ·)
    else some []

/-- The locals at the start. -/
def Parser.start : Parser := ⟨.readDif, some 0, 0, 0, 0, 0, 10, 0, 0⟩

/-- `wmbusParser`, for the memory from `data` on. -/
def wmbusParser (mem : Nat → UInt8) (len : Int) : Option (List Round) :=
  loop mem len len.toNat 0 .start

theorem readDif_eq (i : Nat) (p : Parser) : readDif c i p =
    ⟨if 128 ≤ c.toNat then .readDife else .readVif, some (subunitDigit c), tarifDigit c,
      storageDigit c, 0, 0, p.maxDife, 0, i⟩ := by
  obtain ⟨hstorage, htarif, hsubunit⟩ := byte_parts c
  rw [readDif]
  simp only [hstorage, htarif, hsubunit, extended_iff]

theorem readDife_eq (p : Parser) : readDife c p =
    { p with
      storage := p.storage.bind fun storage =>
        orShifted storage (storageDigit c) (4 * (10 - p.maxDife) + 1)
      tarif := p.tarif ||| tarifDigit c <<< (2 * (10 - p.maxDife))
      subunit := p.subunit ||| subunitDigit c <<< (10 - p.maxDife) } := by
  obtain ⟨hstorage, htarif, hsubunit⟩ := byte_parts c
  rw [readDife]
  simp only [hstorage, htarif, hsubunit]

/-! ### The passes -/

variable {mem : Nat → UInt8} {len : Int} {i n fuel : Nat} {p : Parser} {i' : Nat} {p' : Parser}

theorem le_of_next (h : (round mem i p).next = some (i', p')) : i ≤ i' := by
  have hself {q : Parser} (h : some (i, q) = some (i', p')) : i ≤ i' := by
    rw [← (Prod.mk.inj (Option.some.inj h)).1]
  rw [round.eq_def] at h
  dsimp only at h
  split at h
  · exact hself h
  · split at h
    · split at h
      · cases h
      · exact hself h
    · exact hself h
  · split at h
    · split at h
      · exact hself h
      · cases h
    · exact hself h
  · exact hself h
  · split at h
    · cases h
    · rename_i f _
      rw [← (Prod.mk.inj (Option.some.inj h)).1]
      exact Nat.le_add_right i f.advance

theorem loop_fuel (h : (len - i).toNat ≤ fuel) (h' : (len - i).toNat ≤ n) :
    ∃ rs, loop mem len fuel i p = some rs ∧ loop mem len n i p = some rs := by
  induction fuel generalizing n i p with
  | zero =>
    have hend : ¬(i : Int) < len := by omega
    refine ⟨[], by rw [loop, if_neg hend], ?_⟩
    cases n <;> rw [loop, if_neg hend]
  | succ fuel ih =>
    by_cases hi : (i : Int) < len
    · obtain ⟨n, rfl⟩ : ∃ m, n = m + 1 := ⟨n - 1, by omega⟩
      rw [loop, loop, if_pos hi, if_pos hi]
      cases hnext : (round mem i p).next with
      | none => exact ⟨_, rfl, rfl⟩
      | some next =>
        obtain ⟨i', p'⟩ := next
        have hle := le_of_next hnext
        obtain ⟨rs, hrs, hrs'⟩ := ih (i := i' + 1) (p := p') (n := n) (by omega) (by omega)
        dsimp only
        rw [hrs, hrs']
        exact ⟨_, rfl, rfl⟩
    · refine ⟨[], by rw [loop, if_neg hi], ?_⟩
      cases n <;> rw [loop, if_neg hi]

/-- The passes of the loop from an index on. -/
def rounds (mem : Nat → UInt8) (len : Int) (i : Nat) (p : Parser) : List Round :=
  (loop mem len (len - i).toNat i p).getD []

/-- **The loop ends**, in at most as many passes as there are bytes. -/
theorem loop_eq (h : (len - i).toNat ≤ fuel) :
    loop mem len fuel i p = some (rounds mem len i p) := by
  obtain ⟨rs, hrs, hrs'⟩ : ∃ rs, loop mem len fuel i p = some rs ∧
      loop mem len (len - i).toNat i p = some rs := loop_fuel h (Nat.le_refl _)
  rw [rounds, hrs', hrs, Option.getD_some]

theorem rounds_stop (h : len ≤ i) : rounds mem len i p = [] := by
  have hloop : loop mem len 0 i p = some (rounds mem len i p) := loop_eq (by omega)
  rw [loop, if_neg (by omega)] at hloop
  exact (Option.some.inj hloop).symm

theorem rounds_return (h : (i : Int) < len) (hnext : (round mem i p).next = none) :
    rounds mem len i p = [round mem i p] := by
  have hloop : loop mem len ((len - i).toNat + 1) i p = some (rounds mem len i p) :=
    loop_eq (Nat.le_succ _)
  rw [loop, if_pos h, hnext] at hloop
  exact (Option.some.inj hloop).symm

/-- One pass, and those behind it. -/
theorem rounds_step (h : (i : Int) < len) (hnext : (round mem i p).next = some (i', p')) :
    rounds mem len i p = round mem i p :: rounds mem len (i' + 1) p' := by
  have hle := le_of_next hnext
  have hloop : loop mem len ((len - i).toNat + 1) i p = some (rounds mem len i p) :=
    loop_eq (Nat.le_succ _)
  rw [loop, if_pos h, hnext] at hloop
  dsimp only at hloop
  rw [loop_eq (by omega), Option.map_some] at hloop
  exact (Option.some.inj hloop).symm

/-- **The parser ends**, and this is what it does. -/
theorem wmbusParser_eq : wmbusParser mem len = some (rounds mem len 0 .start) :=
  loop_eq (by omega)

end Ong.Wmbus
