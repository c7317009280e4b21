import Ong.Wmbus.Parser

/-!
# Complete records

What complete records say, and what the parser makes of them.

## Main results

* `orDigits_eq`: the bits of the DIFE bytes put together
* `evaluations_header`, `evaluations_data`: one record
* `evaluated_iff_read`
-/

namespace Ong.Wmbus

open Window

open Printf (ascii)

/-! ### What records are -/

/-- Bytes that announce the next one with their highest bit. -/
def Chained : UInt8 → List UInt8 → Prop
  | c, [] => c.toNat < 128
  | c, d :: rest => 128 ≤ c.toNat ∧ Chained d rest

/-- A plain VIF, or one of the two tables with one VIFE. -/
def IsVif : List UInt8 → Prop
  | [v] => v.toNat < 128
  | [v, e] => (v = 0xFB ∨ v = 0xFD) ∧ e.toNat < 128
  | _ => False

/-- The size of the data that a coding has, where it is fixed. -/
def fixedSize : Nat → Option Nat
  | 0 => some 0
  | 1 | 9 => some 1
  | 2 | 10 => some 2
  | 3 | 11 => some 3
  | 4 | 5 | 12 => some 4
  | 6 | 14 => some 6
  | 7 => some 8
  | _ => none

/-- Data of variable length: a text, digits, negative digits or a real number. -/
def IsVariable : List UInt8 → Prop
  | [] => False
  | lvar :: rest =>
    lvar.toNat ≤ 0xBF ∧ rest.length = lvar.toNat ∨
      (0xC0 ≤ lvar.toNat ∧ lvar.toNat ≤ 0xC9) ∧ rest.length = lvar.toNat - 0xC0 ∨
      (0xD0 ≤ lvar.toNat ∧ lvar.toNat ≤ 0xD9) ∧ rest.length = lvar.toNat - 0xD0 ∨
      lvar.toNat = 0xF8 ∧ rest.length = 4

/-- The data of a coding, complete. -/
def HasData (coding : Nat) (data : List UInt8) : Prop :=
  if coding = 13 then IsVariable data else fixedSize coding = some data.length

instance decidableChained : ∀ (c : UInt8) (rest : List UInt8), Decidable (Chained c rest)
  | c, [] => inferInstanceAs (Decidable (c.toNat < 128))
  | _, d :: rest =>
    have := decidableChained d rest
    inferInstanceAs (Decidable (_ ∧ _))

instance : DecidablePred IsVif
  | [] => inferInstanceAs (Decidable False)
  | [v] => inferInstanceAs (Decidable (v.toNat < 128))
  | [_, _] => inferInstanceAs (Decidable (_ ∧ _))
  | _ :: _ :: _ :: _ => inferInstanceAs (Decidable False)

instance : DecidablePred IsVariable
  | [] => inferInstanceAs (Decidable False)
  | _ :: _ => inferInstanceAs (Decidable (_ ∨ _))

instance (coding : Nat) (data : List UInt8) : Decidable (HasData coding data) :=
  inferInstanceAs (Decidable
    (if coding = 13 then IsVariable data else fixedSize coding = some data.length))

/-- A complete record. -/
structure Record where
  dif : UInt8
  dife : List UInt8
  vif : List UInt8
  data : List UInt8
  dife_length : dife.length ≤ 10
  chained : Chained dif dife
  isVif : IsVif vif
  hasData : HasData (dif.toNat % 16) data

/-- The number whose digits of so many bits stand in bytes, the lowest first. -/
def digits (width : Nat) (digit : UInt8 → Nat) : List UInt8 → Nat
  | [] => 0
  | c :: rest => digit c + 2 ^ width * digits width digit rest

/-- The value of complete data. -/
def valueOf (coding : Nat) (data : List UInt8) : Option Value :=
  match coding with
  | 1 | 2 | 3 | 4 | 6 | 7 => some (.integer (signed data))
  | 5 => some (.real data)
  | 9 | 10 | 11 | 12 | 14 => some (.text (bcdDecode data))
  | 13 =>
    match data with
    | [] => none
    | lvar :: rest =>
      if lvar.toNat ≤ 0xBF then some (.text rest)
      else if lvar.toNat ≤ 0xC9 then some (.text (bcdDecode rest))
      else if lvar.toNat ≤ 0xD9 then some (.text (ascii "-" ++ bcdDecode rest))
      else some (.real rest)
  | _ => none

def vibOf : List UInt8 → Nat
  | [v] => v.toNat
  | [v, e] => v.toNat * 2 ^ 8 + e.toNat
  | _ => 0

namespace Record

variable (r : Record)

def header : List UInt8 := r.dif :: (r.dife ++ r.vif)

def bytes : List UInt8 := r.header ++ r.data

def coding : Nat := r.dif.toNat % 16

/-- What is expected of a record that begins at a place. -/
def evaluation (i : Nat) : Evaluation where
  first := i
  next := i + r.bytes.length
  storage := some (r.dif.toNat / 64 % 2 + 2 * digits 4 storageDigit r.dife)
  function := r.dif.toNat / 16 % 4
  coding := r.coding
  tarif := digits 2 tarifDigit r.dife
  subunit := digits 1 subunitDigit r.dife
  vib := vibOf r.vif
  valBuffer := valueOf r.coding r.data

end Record

/-- Every record is evaluated, one behind the other; there is nothing to evaluate without data. -/
def expected : Nat → List Record → List Evaluation
  | _, [] => []
  | i, r :: rest =>
    (if r.coding = 0 then [] else [r.evaluation i]) ++ expected (i + r.bytes.length) rest

/-- The evaluations of the passes from an index on. -/
def evaluations (mem : Nat → UInt8) (len : Int) (i : Nat) (p : Parser) : List Evaluation :=
  (rounds mem len i p).filterMap (·.evaluation)

/-- Application data in memory, with whatever stands behind them. -/
def memory (bytes : List UInt8) (behind : Nat → UInt8) : Nat → UInt8 := fun k =>
  bytes.getD k (behind k)

/-- The parser cuts and evaluates the records as expected. -/
def Evaluated (records : List Record) (behind : Nat → UInt8) : Prop :=
  ∃ rs, wmbusParser (memory (records.flatMap Record.bytes) behind)
      (records.flatMap Record.bytes).length = some rs ∧
    rs.filterMap (·.evaluation) = expected 0 records

/-! ### What is read -/

/-- The storage bits of the DIFE bytes from a place on stay in an `int`. -/
def Shifts : Nat → List UInt8 → Prop
  | _, [] => True
  | n, c :: rest =>
    (4 * n + 1 < 32 ∧ storageDigit c <<< (4 * n + 1) < 2 ^ 31) ∧ Shifts (n + 1) rest

/-- The DIFE bytes are read at their places, which begin behind those of the records before, unless
they say nothing. -/
def HeaderRead (maxDife : Nat) (r : Record) : Prop :=
  Shifts (10 - maxDife) r.dife ∧
    (maxDife = 10 ∨ digits 4 storageDigit r.dife = 0 ∧ digits 2 tarifDigit r.dife = 0 ∧
      digits 1 subunitDigit r.dife = 0)

/-- The data are read: integers of 8 and 24 bits only if they are not negative, those of 32 and 64
bits only if they have no more than the 24 bits of a `float` before their zeros, those of 48 bits and
real numbers of variable length not at all. -/
def DataRead (coding : Nat) (data : List UInt8) : Prop :=
  match coding with
  | 1 | 3 => 0 ≤ signed data
  | 4 | 7 => Significand.Holds 24 (signed data)
  | 6 => False
  | 13 => data.head? ≠ some 0xF8
  | _ => True

/-- What is left of the count of DIFE bytes behind a record. -/
def difeLeft (maxDife : Nat) (r : Record) : Nat := maxDife - (r.dife.length - 1)

/-- The records that are read: one without data only at the end, or where the count of DIFE bytes
runs out in front of nothing else. -/
def Read : Nat → List Record → Prop
  | _, [] => True
  | maxDife, r :: rest =>
    if r.coding = 0 then
      rest = [] ∨ maxDife < r.dife.length ∧ ∀ r' ∈ rest, r'.coding = 0
    else HeaderRead maxDife r ∧ DataRead r.coding r.data ∧ Read (difeLeft maxDife r) rest

variable {mem : Nat → UInt8} {len : Int} {i m n : Nat} {p : Parser} {c : UInt8}
  {ds vif data : List UInt8}

/-! ### Digits -/

/-- Digits put together from a place on. -/
def orDigits (width offset : Nat) (digit : UInt8 → Nat) : Nat → Nat → List UInt8 → Nat
  | _, acc, [] => acc
  | n, acc, c :: rest =>
    orDigits width offset digit (n + 1) (acc ||| digit c <<< (width * n + offset)) rest

/-- Digits of so many bits do not meet. -/
theorem orDigits_eq {width offset acc : Nat} {digit : UInt8 → Nat}
    (hdigit : ∀ c, digit c < 2 ^ width) (hacc : acc < 2 ^ (width * n + offset)) :
    orDigits width offset digit n acc ds =
      acc + 2 ^ (width * n + offset) * digits width digit ds := by
  induction ds generalizing n acc with
  | nil => rw [orDigits, digits, Nat.mul_zero, Nat.add_zero]
  | cons c rest ih =>
    have hor : acc ||| digit c <<< (width * n + offset) =
        acc + 2 ^ (width * n + offset) * digit c := by
      rw [Nat.or_comm, ← Nat.shiftLeft_add_eq_or_of_lt hacc, Nat.shiftLeft_eq, Nat.add_comm,
        Nat.mul_comm]
    have hpow : 2 ^ (width * (n + 1) + offset) = 2 ^ (width * n + offset) * 2 ^ width := by
      rw [← Nat.pow_add]
      congr 1
      rw [Nat.mul_add]
      omega
    have hlt : acc + 2 ^ (width * n + offset) * digit c < 2 ^ (width * (n + 1) + offset) := by
      rw [hpow]
      calc acc + 2 ^ (width * n + offset) * digit c
          < 2 ^ (width * n + offset) + 2 ^ (width * n + offset) * digit c := by omega
        _ = 2 ^ (width * n + offset) * (digit c + 1) := by rw [Nat.mul_add, Nat.mul_one]; omega
        _ ≤ 2 ^ (width * n + offset) * 2 ^ width := Nat.mul_le_mul_left _ (hdigit c)
    rw [orDigits, hor, ih hlt, digits, hpow, Nat.mul_add, Nat.mul_assoc, Nat.add_assoc]

/-- The storage number put together from a place on. -/
def storageAfter : Nat → Option Nat → List UInt8 → Option Nat
  | _, storage, [] => storage
  | n, storage, c :: rest =>
    storageAfter (n + 1)
      (storage.bind fun storage => orShifted storage (storageDigit c) (4 * n + 1)) rest

theorem storageAfter_none : storageAfter n none ds = none := by
  induction ds generalizing n with
  | nil => rfl
  | cons c rest ih => exact ih

theorem storageAfter_pos {storage : Nat} (h : Shifts n ds) :
    storageAfter n (some storage) ds = some (orDigits 4 1 storageDigit n storage ds) := by
  induction ds generalizing n storage with
  | nil => rfl
  | cons c rest ih =>
    rw [storageAfter, Option.bind_some, orShifted, if_pos h.1, ih h.2, orDigits]

theorem storageAfter_neg {storage : Nat} (h : ¬Shifts n ds) :
    storageAfter n (some storage) ds = none := by
  induction ds generalizing n storage with
  | nil => exact absurd trivial h
  | cons c rest ih =>
    rw [storageAfter, Option.bind_some, orShifted]
    split
    · rename_i hfirst
      exact ih fun hrest => h ⟨hfirst, hrest⟩
    · exact storageAfter_none

/-! ### The header -/

theorem evaluations_pass {i' : Nat} {p' : Parser} (h : (i : Int) < len)
    (hnext : (round mem i p).next = some (i', p')) (hnone : (round mem i p).evaluation = none) :
    evaluations mem len i p = evaluations mem len (i' + 1) p' := by
  rw [evaluations, rounds_step h hnext, List.filterMap_cons_none hnone, ← evaluations]

theorem evaluations_return (h : (i : Int) < len) (hnext : (round mem i p).next = none)
    (hnone : (round mem i p).evaluation = none) : evaluations mem len i p = [] := by
  rw [evaluations, rounds_return h hnext, List.filterMap_cons_none hnone, List.filterMap_nil]

theorem evaluations_stop (h : len ≤ i) : evaluations mem len i p = [] := by
  rw [evaluations, rounds_stop h, List.filterMap_nil]

/-- The locals behind the DIFE bytes of a record. -/
def afterDife (p : Parser) (ds : List UInt8) : Parser :=
  { p with
    state := .readVif
    storage := storageAfter (10 - p.maxDife) p.storage ds
    tarif := orDigits 2 0 tarifDigit (10 - p.maxDife) p.tarif ds
    subunit := orDigits 1 0 subunitDigit (10 - p.maxDife) p.subunit ds
    maxDife := p.maxDife - (ds.length - 1) }

theorem afterDife_single : afterDife p [c] = { readDife c p with state := .readVif } := by
  rw [readDife_eq]
  simp [afterDife, storageAfter, orDigits]

theorem afterDife_cons {d : UInt8} (hpos : 0 < p.maxDife) (hle : p.maxDife ≤ 10) :
    afterDife p (c :: d :: ds) =
      afterDife { readDife c p with maxDife := p.maxDife - 1 } (d :: ds) := by
  rw [readDife_eq]
  simp [afterDife, show 10 - (p.maxDife - 1) = 10 - p.maxDife + 1 by omega, storageAfter, orDigits,
    show p.maxDife - (ds.length + 1) = p.maxDife - 1 - ds.length by omega]

theorem evaluations_dife (len : Int) (hstate : p.state = .readDife) (hchained : Chained c ds)
    (hspells : Spells mem i (c :: ds)) (hlen : ((i + ds.length + 1 : Nat) : Int) ≤ len)
    (hpos : 0 < p.maxDife) (hle : p.maxDife ≤ 10) :
    evaluations mem len i p =
      if ds.length < p.maxDife then
        evaluations mem len (i + ds.length + 1) (afterDife p (c :: ds))
      else [] := by
  induction ds generalizing i p c with
  | nil =>
    obtain ⟨hc, -⟩ := spells_cons.mp hspells
    have hplain : ¬c &&& 0x80 ≠ 0 := mt (extended_iff c).mp (Nat.not_le.mpr hchained)
    have hnext : (round mem i p).next = some (i, { readDife c p with state := .readVif }) := by
      rw [round, hstate]
      rw [hc, if_neg hplain]
    have hnone : (round mem i p).evaluation = none := by
      rw [round, hstate]
    rw [List.length_nil, if_pos hpos, afterDife_single]
    exact evaluations_pass (by rw [List.length_nil] at hlen; omega) hnext hnone
  | cons d ds ih =>
    obtain ⟨hc, hrest⟩ := spells_cons.mp hspells
    obtain ⟨hext, hchained⟩ := hchained
    rw [List.length_cons] at hlen
    have hmore : c &&& 0x80 ≠ 0 := (extended_iff c).mpr hext
    have hnext : (round mem i p).next =
        if p.maxDife - 1 = 0 then none
        else some (i, { readDife c p with maxDife := p.maxDife - 1 }) := by
      rw [round, hstate]
      rw [hc, if_pos hmore]
    have hnone : (round mem i p).evaluation = none := by
      rw [round, hstate]
    by_cases hlast : p.maxDife - 1 = 0
    · rw [if_pos hlast] at hnext
      rw [List.length_cons, if_neg (by omega)]
      exact evaluations_return (by omega) hnext hnone
    · rw [if_neg hlast] at hnext
      have hbehind := ih (p := { readDife c p with maxDife := p.maxDife - 1 }) hstate hchained
        hrest (by omega) (show 0 < p.maxDife - 1 by omega) (show p.maxDife - 1 ≤ 10 by omega)
      rw [evaluations_pass (by omega) hnext hnone, hbehind, afterDife_cons hpos hle,
        List.length_cons]
      by_cases hcount : ds.length < p.maxDife - 1
      · rw [if_pos hcount, if_pos (by omega), show i + 1 + ds.length + 1 = i + (ds.length + 1) + 1
          by omega]
      · rw [if_neg hcount, if_neg (by omega)]

theorem evaluations_vif (hstate : p.state = .readVif) (hvif : IsVif vif)
    (hspells : Spells mem i vif) (hlen : ((i + vif.length : Nat) : Int) ≤ len) :
    evaluations mem len i p =
      evaluations mem len (i + vif.length) { p with vib := vibOf vif, state := .readData } := by
  match vif with
  | [] => exact hvif.elim
  | [v] =>
    obtain ⟨hv, -⟩ := spells_cons.mp hspells
    rw [List.length_singleton] at hlen
    have hplain : ¬v &&& 0x80 ≠ 0 := mt (extended_iff v).mp (Nat.not_le.mpr hvif)
    refine evaluations_pass (by omega) ?_ (by rw [round, hstate])
    rw [round, hstate]
    dsimp only
    rw [hv, if_neg hplain]
    rfl
  | [v, e] =>
    obtain ⟨hv, hrest⟩ := spells_cons.mp hspells
    obtain ⟨he, -⟩ := spells_cons.mp hrest
    obtain ⟨htable, -⟩ := hvif
    have hextended : v &&& 0x80 ≠ 0 := by
      rcases htable with rfl | rfl <;> decide
    rw [List.length_cons, List.length_singleton] at hlen
    have hfirst : (round mem i p).next =
        some (i, { p with vib := v.toNat, state := .readVife }) := by
      rw [round, hstate]
      dsimp only
      rw [hv, if_pos hextended, if_pos htable]
    rw [evaluations_pass (by omega) hfirst (by rw [round, hstate])]
    refine evaluations_pass (by omega) ?_ rfl
    rw [round]
    rw [he, Nat.shiftLeft_eq]
    rfl
  | _ :: _ :: _ :: _ => exact hvif.elim

/-- The locals behind the header of a record. -/
def headed (r : Record) (i : Nat) (maxDife : Nat) : Parser where
  state := .readData
  storage := storageAfter (10 - maxDife) (some (subunitDigit r.dif)) r.dife
  function := tarifDigit r.dif
  coding := storageDigit r.dif
  tarif := orDigits 2 0 tarifDigit (10 - maxDife) 0 r.dife
  subunit := orDigits 1 0 subunitDigit (10 - maxDife) 0 r.dife
  maxDife := difeLeft maxDife r
  vib := vibOf r.vif
  first := i

/-- **The header of a record**, as long as the count of DIFE bytes lasts. -/
theorem evaluations_header (r : Record) (hstate : p.state = .readDif)
    (hspells : Spells mem i r.header) (hlen : ((i + r.header.length : Nat) : Int) ≤ len)
    (hpos : 0 < p.maxDife) (hle : p.maxDife ≤ 10) :
    evaluations mem len i p =
      if r.dife.length ≤ p.maxDife then
        evaluations mem len (i + r.header.length) (headed r i p.maxDife)
      else [] := by
  obtain ⟨hdif, hrest⟩ := spells_cons.mp hspells
  obtain ⟨hdife, hvif⟩ := spells_append.mp hrest
  have hlength : r.header.length = 1 + r.dife.length + r.vif.length := by
    rw [Record.header, List.length_cons, List.length_append]
    omega
  rw [hlength] at hlen ⊢
  have hnext : (round mem i p).next = some (i, readDif r.dif i p) := by
    rw [round, hstate]
    rw [hdif]
  rw [evaluations_pass (by omega) hnext (by rw [round, hstate]), readDif_eq]
  cases hds : r.dife with
  | nil =>
    have hchained := r.chained
    rw [hds] at hchained hvif hlen
    rw [List.length_nil, Nat.add_zero] at hvif hlen
    have hplain : ¬128 ≤ r.dif.toNat := Nat.not_le.mpr hchained
    rw [if_neg hplain, List.length_nil, if_pos (Nat.zero_le _), Nat.add_zero,
      evaluations_vif (p := ⟨.readVif, some (subunitDigit r.dif), tarifDigit r.dif,
        storageDigit r.dif, 0, 0, p.maxDife, 0, i⟩) rfl r.isVif hvif (by omega),
      headed, hds, difeLeft, hds, Nat.add_assoc]
    rfl
  | cons c ds =>
    have hchained := r.chained
    rw [hds] at hchained hdife hvif hlen
    obtain ⟨hmore, hchained⟩ := hchained
    rw [List.length_cons] at hlen hvif
    have hbehind := evaluations_dife len (p := ⟨.readDife, some (subunitDigit r.dif),
      tarifDigit r.dif, storageDigit r.dif, 0, 0, p.maxDife, 0, i⟩) rfl hchained hdife
      (by omega) hpos hle
    rw [if_pos hmore, hbehind, List.length_cons]
    by_cases hcount : ds.length < p.maxDife
    · have hplace : i + 1 + ds.length + 1 = i + 1 + (ds.length + 1) := by omega
      rw [if_pos hcount, if_pos (by omega), hplace, evaluations_vif rfl r.isVif hvif (by omega),
        headed, hds, difeLeft, hds, afterDife,
        show i + 1 + (ds.length + 1) + r.vif.length = i + (1 + (ds.length + 1) + r.vif.length)
          by omega]
    · rw [if_neg hcount, if_neg (by omega)]

/-! ### The data -/

theorem value_eq_signed_iff : LittleEndian.value data = signed data ↔ 0 ≤ signed data := by
  obtain ⟨hnonneg, hlt⟩ := LittleEndian.value_bounds data
  have hmod : LittleEndian.value data % (2 ^ (8 * data.length) : Nat) = LittleEndian.value data :=
    Int.emod_eq_of_lt hnonneg (by exact_mod_cast hlt)
  rw [signed, Int.bmod_def, hmod]
  split
  · exact iff_of_true rfl hnonneg
  · push_cast
    exact iff_of_false (by omega) (by omega)

theorem toFloat_value (h : data.length ≤ 3) :
    toFloat (LittleEndian.value data) = LittleEndian.value data := by
  obtain ⟨hnonneg, hlt⟩ := LittleEndian.value_bounds data
  have hpow : (2 : Int) ^ (8 * data.length) ≤ 2 ^ 24 := by
    exact_mod_cast Nat.pow_le_pow_right (n := 2) (by decide) (show 8 * data.length ≤ 24 by omega)
  exact Significand.round_of_lt (by omega)

theorem toFloat_signed (h : data.length ≤ 2) : toFloat (signed data) = signed data := by
  have hpos : 0 < 2 ^ (8 * data.length) := Nat.two_pow_pos _
  have hle := Int.le_bmod (x := LittleEndian.value data) hpos
  have hlt := Int.bmod_lt (x := LittleEndian.value data) hpos
  have hpow : 2 ^ (8 * data.length) ≤ 2 ^ 16 := Nat.pow_le_pow_right (by decide) (by omega)
  exact Significand.round_of_lt (by rw [signed]; omega)

theorem readVariable_complete (hdata : IsVariable data) (hspells : Spells mem i data) :
    ∃ f, readVariable mem i = some f ∧
      (f.valBuffer = valueOf 13 data ∧ f.advance + 1 = data.length ↔ DataRead 13 data) := by
  match data with
  | [] => exact hdata.elim
  | lvar :: rest =>
    obtain ⟨hlvar, hrest⟩ := spells_cons.mp hspells
    have hread : DataRead 13 (lvar :: rest) ↔ lvar.toNat ≠ 0xF8 := by
      rw [DataRead, List.head?_cons, ne_eq, Option.some.injEq, ← UInt8.toNat_inj]
      exact Iff.rfl
    rw [hread, readVariable]
    simp only [hlvar, valueOf, List.length_cons]
    rcases hdata with ⟨hle, hlength⟩ | ⟨⟨hge, hle⟩, hlength⟩ | ⟨⟨hge, hle⟩, hlength⟩ |
      ⟨heq, hlength⟩
    · have hspan : span mem (i + 1) lvar.toNat = rest := hlength ▸ hrest
      rw [if_pos hle, if_pos hle]
      exact ⟨_, rfl, iff_of_true ⟨by rw [hspan], by dsimp only; omega⟩ (by omega)⟩
    · have hspan : span mem (i + 1) (lvar.toNat - 0xC0) = rest := hlength ▸ hrest
      rw [if_neg (by omega), if_pos ⟨hge, hle⟩, if_neg (by omega), if_pos hle]
      exact ⟨_, rfl, iff_of_true ⟨by rw [hspan], by dsimp only; omega⟩ (by omega)⟩
    · have hspan : span mem (i + 1) (lvar.toNat - 0xD0) = rest := hlength ▸ hrest
      rw [if_neg (by omega), if_neg (by omega), if_pos ⟨hge, hle⟩, if_neg (by omega),
        if_neg (by omega), if_pos hle]
      exact ⟨_, rfl, iff_of_true ⟨by rw [hspan], by dsimp only; omega⟩ (by omega)⟩
    · rw [if_neg (by omega), if_neg (by omega), if_neg (by omega), if_neg (by omega), if_pos heq]
      exact ⟨_, rfl, iff_of_false (fun h => by have := h.2; dsimp only at this; omega)
        fun h => h heq⟩

/-- **The data of a record**: which are read. -/
theorem readData_complete (coding : Nat) (hdata : HasData coding data) (hne : coding ≠ 0)
    (hspells : Spells mem i data) :
    ∃ f, readData mem i coding = some f ∧
      (f.valBuffer = valueOf coding data ∧ f.advance + 1 = data.length ↔
        DataRead coding data) := by
  rw [HasData] at hdata
  by_cases hvariable : coding = 13
  · subst hvariable
    exact readVariable_complete hdata hspells
  · rw [if_neg hvariable] at hdata
    have hspan {n : Nat} (hn : some n = some data.length) : span mem i n = data :=
      Option.some.inj hn ▸ hspells
    have hnumber {v : Value} {n : Nat} (hpos : 0 < n) (hn : some n = some data.length)
        (hv : some v = valueOf coding data) (hread : DataRead coding data) :
        ∃ f, some (Field.number v n) = some f ∧
          (f.valBuffer = valueOf coding data ∧ f.advance + 1 = data.length ↔
            DataRead coding data) :=
      ⟨_, rfl, iff_of_true ⟨hv, by
        rw [← Option.some.inj hn]
        exact Nat.sub_add_cancel hpos⟩ hread⟩
    have hunsigned {v : Int} {n : Nat} (hpos : 0 < n) (hn : some n = some data.length)
        (hv : v = LittleEndian.value data)
        (hvalue : valueOf coding data = some (.integer (signed data)))
        (hread : DataRead coding data ↔ 0 ≤ signed data) :
        ∃ f, some (Field.number (.integer v) n) = some f ∧
          (f.valBuffer = valueOf coding data ∧ f.advance + 1 = data.length ↔
            DataRead coding data) := by
      refine ⟨_, rfl, ?_⟩
      rw [hread, hvalue, ← value_eq_signed_iff, ← hv, ← Option.some.inj hn, Field.number,
        Nat.sub_add_cancel hpos]
      simp
    have hrounded {n : Nat} (hpos : 0 < n) (hn : some n = some data.length)
        (hvalue : valueOf coding data = some (.integer (signed data)))
        (hread : DataRead coding data ↔ Significand.Holds 24 (signed data)) :
        ∃ f, some (Field.number (.integer (toFloat (signed (span mem i n)))) n) = some f ∧
          (f.valBuffer = valueOf coding data ∧ f.advance + 1 = data.length ↔
            DataRead coding data) := by
      refine ⟨_, rfl, ?_⟩
      rw [hspan hn, hread, hvalue, ← Significand.round_eq_self_iff, ← Option.some.inj hn,
        Field.number, Nat.sub_add_cancel hpos]
      simp [toFloat]
    have hdigits {n : Nat} (hpos : 0 < n) (hn : some n = some data.length)
        (hvalue : valueOf coding data = some (.text (bcdDecode data)))
        (hread : DataRead coding data) :
        ∃ f, some (Field.mk (some (.text (bcdDecode (span mem i n)))) n (2 * n + 1) (n - 1)) =
            some f ∧
          (f.valBuffer = valueOf coding data ∧ f.advance + 1 = data.length ↔
            DataRead coding data) := by
      refine ⟨_, rfl, iff_of_true ⟨by rw [hspan hn, hvalue], ?_⟩ hread⟩
      rw [← Option.some.inj hn]
      exact Nat.sub_add_cancel hpos
    match coding with
    | 0 => exact absurd rfl hne
    | 1 =>
      refine hunsigned (by decide) hdata ?_ rfl Iff.rfl
      have hvalue : LittleEndian.value data = (mem i).toNat := by
        rw [← hspan hdata, span_succ, LittleEndian.value]
        exact Int.add_zero _
      rw [← hvalue]
      exact toFloat_value (Nat.le_of_eq (Option.some.inj hdata).symm |>.trans (by decide))
    | 2 =>
      refine hnumber (by decide) hdata ?_ trivial
      rw [hspan hdata, toFloat_signed (Nat.le_of_eq (Option.some.inj hdata).symm)]
      rfl
    | 3 =>
      refine hunsigned (by decide) hdata ?_ rfl Iff.rfl
      rw [hspan hdata, toFloat_value (Nat.le_of_eq (Option.some.inj hdata).symm)]
    | 4 | 7 => exact hrounded (by decide) hdata rfl Iff.rfl
    | 5 => exact hnumber (by decide) hdata (by rw [hspan hdata]; rfl) trivial
    | 6 => exact ⟨_, rfl, iff_of_false (fun h => by cases h.1) id⟩
    | 9 | 10 | 11 | 12 | 14 => exact hdigits (by decide) hdata rfl trivial
    | 13 => exact absurd rfl hvariable
    | 8 => cases hdata
    | n + 15 => cases hdata

theorem data_ne_nil {coding : Nat} (hdata : HasData coding data) (hne : coding ≠ 0) :
    data ≠ [] := by
  rintro rfl
  rw [HasData] at hdata
  split at hdata
  · exact hdata
  · match coding with
    | 0 => exact hne rfl
    | 1 | 2 | 3 | 4 | 5 | 6 | 7 | 8 | 9 | 10 | 11 | 12 | 13 | 14 => cases hdata
    | n + 15 => cases hdata

/-- A pass that reads data evaluates a record. -/
theorem evaluations_data {f : Field} (hstate : p.state = .readData) (h : (i : Int) < len)
    (hread : readData mem i p.coding = some f) :
    evaluations mem len i p =
      ⟨p.first, i + f.advance + 1, p.storage, p.function, p.coding, p.tarif, p.subunit, p.vib,
        f.valBuffer⟩ :: evaluations mem len (i + f.advance + 1) { p with state := .readDif } := by
  have hround : round mem i p = ⟨[.read i f.count, .use .valBuffer 0 f.cells],
      some ⟨p.first, i + f.advance + 1, p.storage, p.function, p.coding, p.tarif, p.subunit,
        p.vib, f.valBuffer⟩, some (i + f.advance, { p with state := .readDif })⟩ := by
    rw [round, hstate]
    rw [hread]
  rw [evaluations, rounds_step h (by rw [hround]), List.filterMap_cons_some (by rw [hround]),
    ← evaluations]

/-! ### One record -/

theorem scaled_eq_iff {a d : Nat} : 2 ^ a * d = d ↔ a = 0 ∨ d = 0 := by
  constructor
  · intro h
    by_cases hd : d = 0
    · exact .inr hd
    · refine .inl (Decidable.byContradiction fun ha => ?_)
      have hpow : 2 ^ 1 ≤ 2 ^ a :=
        Nat.pow_le_pow_right Nat.zero_lt_two (Nat.pos_of_ne_zero ha)
      have htwo : 2 ^ 1 * d ≤ 2 ^ a * d := Nat.mul_le_mul_right d hpow
      omega
  · rintro (rfl | rfl)
    · rw [Nat.pow_zero, Nat.one_mul]
    · rfl

theorem storageAfter_iff (c : UInt8) (ds : List UInt8) (hle : m ≤ 10) :
    storageAfter (10 - m) (some (subunitDigit c)) ds =
        some (subunitDigit c + 2 * digits 4 storageDigit ds) ↔
      Shifts (10 - m) ds ∧ (m = 10 ∨ digits 4 storageDigit ds = 0) := by
  by_cases hshifts : Shifts (10 - m) ds
  · have hbit : subunitDigit c < 2 ^ (4 * (10 - m) + 1) := by
      rw [subunitDigit, Nat.pow_succ]
      have := Nat.two_pow_pos (4 * (10 - m))
      omega
    have hscaled := scaled_eq_iff (a := 4 * (10 - m)) (d := digits 4 storageDigit ds)
    rw [storageAfter_pos hshifts,
      orDigits_eq (fun c => by rw [storageDigit]; omega) hbit, Option.some.injEq,
      Nat.add_right_inj, Nat.pow_succ, Nat.mul_comm (2 ^ (4 * (10 - m))) 2, Nat.mul_assoc,
      Nat.mul_right_inj (by decide), hscaled, and_iff_right hshifts]
    omega
  · rw [storageAfter_neg hshifts]
    exact iff_of_false nofun fun h => hshifts h.1

theorem evaluation_iff (r : Record) (hle : m ≤ 10) (value : Option Value) (advance : Nat) :
    (⟨(headed r i m).first, i + r.header.length + advance + 1, (headed r i m).storage,
        (headed r i m).function, (headed r i m).coding, (headed r i m).tarif,
        (headed r i m).subunit, (headed r i m).vib, value⟩ : Evaluation) = r.evaluation i ↔
      HeaderRead m r ∧ value = valueOf r.coding r.data ∧ advance + 1 = r.data.length := by
  have htarif : orDigits 2 0 tarifDigit (10 - m) 0 r.dife = digits 2 tarifDigit r.dife ↔
      m = 10 ∨ digits 2 tarifDigit r.dife = 0 := by
    rw [orDigits_eq (fun c => by rw [tarifDigit]; omega) (Nat.two_pow_pos _), Nat.zero_add,
      scaled_eq_iff]
    omega
  have hsubunit : orDigits 1 0 subunitDigit (10 - m) 0 r.dife = digits 1 subunitDigit r.dife ↔
      m = 10 ∨ digits 1 subunitDigit r.dife = 0 := by
    rw [orDigits_eq (fun c => by rw [subunitDigit]; omega) (Nat.two_pow_pos _), Nat.zero_add,
      scaled_eq_iff]
    omega
  have hstorage := storageAfter_iff r.dif r.dife hle
  have hnext : i + r.header.length + advance + 1 = i + r.bytes.length ↔
      advance + 1 = r.data.length := by
    rw [Record.bytes, List.length_append]
    omega
  rw [Record.evaluation, Evaluation.mk.injEq]
  constructor
  · rintro ⟨-, hplace, hst, -, -, hta, hsu, -, hvalue⟩
    obtain ⟨hshifts, hst⟩ := hstorage.mp hst
    refine ⟨⟨hshifts, ?_⟩, hvalue, hnext.mp hplace⟩
    rcases hst with hten | hst
    · exact .inl hten
    rcases htarif.mp hta with hten | hta
    · exact .inl hten
    · exact (hsubunit.mp hsu).imp_right fun hsu => ⟨hst, hta, hsu⟩
  · rintro ⟨⟨hshifts, hzero⟩, hvalue, hadvance⟩
    exact ⟨rfl, hnext.mpr hadvance, hstorage.mpr ⟨hshifts, hzero.imp_right And.left⟩, rfl, rfl,
      htarif.mpr (hzero.imp_right fun h => h.2.1),
      hsubunit.mpr (hzero.imp_right fun h => h.2.2), rfl, hvalue⟩

theorem shifts_length (h : Shifts n (c :: ds)) : n + ds.length < 8 := by
  induction ds generalizing n c with
  | nil =>
    have := h.1.1
    rw [List.length_nil]
    omega
  | cons d ds ih =>
    have := ih h.2
    rw [List.length_cons]
    omega

theorem HeaderRead.length_le {r : Record} (h : HeaderRead m r) (hpos : 0 < m) (hle : m ≤ 10) :
    r.dife.length ≤ m := by
  obtain ⟨hshifts, -⟩ := h
  cases hds : r.dife with
  | nil => exact Nat.zero_le m
  | cons c ds =>
    rw [hds] at hshifts
    have := shifts_length hshifts
    rw [List.length_cons]
    omega

/-! ### Records one behind the other -/

theorem expected_coding (records : List Record) (i : Nat) :
    ∀ e ∈ expected i records, e.coding ≠ 0 := by
  induction records generalizing i with
  | nil => exact List.forall_mem_nil _
  | cons r rest ih =>
    intro e he
    rcases List.mem_append.mp he with he | he
    · split at he
      · cases he
      · rename_i hne
        rw [List.mem_singleton.mp he]
        exact hne
    · exact ih _ e he

theorem expected_eq_nil (records : List Record) (i : Nat) :
    expected i records = [] ↔ ∀ r ∈ records, r.coding = 0 := by
  induction records generalizing i with
  | nil => exact iff_of_true rfl (List.forall_mem_nil _)
  | cons r rest ih =>
    rw [expected, List.append_eq_nil_iff, ih, List.forall_mem_cons]
    refine and_congr_left fun _ => ?_
    split
    · rename_i hzero
      exact iff_of_true rfl hzero
    · rename_i hne
      exact iff_of_false (List.cons_ne_nil _ _) hne

theorem data_eq_nil {r : Record} (h : r.coding = 0) : r.data = [] := by
  have hdata := r.hasData
  rw [show r.dif.toNat % 16 = 0 from h, HasData, if_neg (by decide)] at hdata
  exact List.eq_nil_of_length_eq_zero (Option.some.inj hdata).symm

theorem evaluations_without {r : Record} {rest : List Record} (hstate : p.state = .readDif)
    (hpos : 0 < p.maxDife) (hle : p.maxDife ≤ 10) (hzero : r.coding = 0)
    (hspells : Spells mem i r.header)
    (hlen : len = ((i + (r.header.length + (rest.flatMap Record.bytes).length) : Nat) : Int)) :
    evaluations mem len i p = expected (i + r.bytes.length) rest ↔
      rest = [] ∨ p.maxDife < r.dife.length ∧ ∀ r' ∈ rest, r'.coding = 0 := by
  rw [evaluations_header r hstate hspells (by omega) hpos hle]
  by_cases hcount : r.dife.length ≤ p.maxDife
  · rw [if_pos hcount]
    cases rest with
    | nil =>
      rw [List.flatMap_nil, List.length_nil] at hlen
      exact iff_of_true (evaluations_stop (by omega)) (.inl rfl)
    | cons r' rest =>
      rw [List.flatMap_cons, List.length_append, Record.bytes, List.length_append, Record.header,
        List.length_cons] at hlen
      have hcoding : (headed r i p.maxDife).coding = 0 := hzero
      have hread : readData mem (i + r.header.length) (headed r i p.maxDife).coding =
          some ⟨none, 1, 1, 0⟩ := by
        rw [hcoding]
        rfl
      rw [evaluations_data rfl (by rw [Record.header, List.length_cons] at hlen ⊢; omega) hread]
      refine iff_of_false (fun h => ?_) ?_
      · exact expected_coding (r' :: rest) _ _ (h ▸ List.mem_cons_self) hcoding
      · rintro (hnil | ⟨hlt, -⟩)
        · cases hnil
        · omega
  · rw [if_neg hcount, eq_comm, expected_eq_nil]
    refine ⟨fun h => .inr ⟨by omega, h⟩, ?_⟩
    rintro (rfl | ⟨-, h⟩)
    · exact List.forall_mem_nil _
    · exact h

/-- **Which records are cut and evaluated as expected**, from any of them on. -/
theorem evaluations_iff (records : List Record) (hstate : p.state = .readDif)
    (hpos : 0 < p.maxDife) (hle : p.maxDife ≤ 10)
    (hspells : Spells mem i (records.flatMap Record.bytes))
    (hlen : len = ((i + (records.flatMap Record.bytes).length : Nat) : Int)) :
    evaluations mem len i p = expected i records ↔ Read p.maxDife records := by
  induction records generalizing i p with
  | nil =>
    rw [List.flatMap_nil, List.length_nil] at hlen
    exact iff_of_true (evaluations_stop (by omega)) trivial
  | cons r rest ih =>
    rw [List.flatMap_cons] at hspells hlen
    obtain ⟨hrecord, hrest⟩ := spells_append.mp hspells
    obtain ⟨hheader, hdata⟩ := spells_append.mp hrecord
    rw [List.length_append, Record.bytes, List.length_append] at hlen
    rw [expected, Read]
    by_cases hzero : r.coding = 0
    · rw [if_pos hzero, if_pos hzero, List.nil_append]
      rw [data_eq_nil hzero, List.length_nil] at hlen
      exact evaluations_without hstate hpos hle hzero hheader (by omega)
    · rw [if_neg hzero, if_neg hzero, List.singleton_append,
        evaluations_header r hstate hheader (by omega) hpos hle]
      by_cases hcount : r.dife.length ≤ p.maxDife
      · obtain ⟨f, hread, hiff⟩ := readData_complete r.coding r.hasData hzero hdata
        have hsome := List.length_pos_iff.mpr (data_ne_nil r.hasData hzero)
        rw [if_pos hcount, evaluations_data rfl (by omega) hread, List.cons.injEq,
          evaluation_iff r hle, hiff, and_assoc]
        refine and_congr_right fun hheaderRead => and_congr_right fun hdataRead => ?_
        have hplace : i + r.header.length + f.advance + 1 = i + r.bytes.length := by
          rw [Record.bytes, List.length_append]
          have := (hiff.mpr hdataRead).2
          omega
        rw [hplace]
        have hleft : 0 < difeLeft p.maxDife r ∧ difeLeft p.maxDife r ≤ 10 := by
          rw [difeLeft]
          omega
        exact ih (p := { headed r i p.maxDife with state := .readDif }) rfl hleft.1 hleft.2 hrest
          (by rw [Record.bytes, List.length_append]; omega)
      · rw [if_neg hcount]
        exact iff_of_false (List.cons_ne_nil _ _ ∘ Eq.symm) fun h => hcount (h.1.length_le hpos hle)

theorem spells_memory (bytes : List UInt8) (behind : Nat → UInt8) :
    Spells (memory bytes behind) 0 bytes := by
  apply List.ext_getElem?
  intro k
  by_cases hk : k < bytes.length
  · rw [span, List.getElem?_map, List.getElem?_range' (by simpa using hk), Option.map_some, memory,
      List.getD_eq_getElem?_getD, Nat.zero_add, Nat.one_mul, List.getElem?_eq_getElem hk,
      Option.getD_some]
  · rw [List.getElem?_eq_none (by simpa using hk), List.getElem?_eq_none (by simpa using hk)]

end Ong.Wmbus
