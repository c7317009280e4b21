import Mathlib.Algebra.Ring.Int.Defs
import Mathlib.Algebra.BigOperators.Group.List.Basic
import Ong.Lib.BitField

/-!
# Zero-run compression

A zero byte becomes the bit 0, every other byte the bit 1 and its own eight bits.  `XoMemDeflate`
puts a byte in front that says how many bits of the last byte count; `XoMemCompress` returns the
number of bits instead.

## Main results

* `deflate_lossless_iff`: which buffers come back
-/

namespace Ong.Xo

open BitField List Function

/-- The memory of the caller, and the addresses written so far. -/
structure Out where
  cells : Int → UInt8
  written : List Int

/-- `*a = b` -/
def Out.put (o : Out) (a : Int) (b : UInt8) : Out :=
  { cells := Function.update o.cells a b, written := a :: o.written }

@[simp]
theorem Out.put_self (o : Out) (a : Int) (b : UInt8) : (o.put a b).cells a = b :=
  update_self ..

theorem Out.put_of_ne (o : Out) {a c : Int} (b : UInt8) (h : c ≠ a) :
    (o.put a b).cells c = o.cells c := update_of_ne h ..

/-! ### Bits behind a pointer -/

def getBit (mem : Int → UInt8) (pt n : Int) : Bool :=
  (mem (pt + n.tdiv 8)).toNat &&& 1 <<< (7 - n.tmod 8).toNat != 0

/-- `_SET_BIT` and `CLR_BIT` -/
def setBit (o : Out) (pt n : Int) (v : Bool) : Out :=
  let b := (o.cells (pt + n.tdiv 8)).toNat
  let mask := 1 <<< (7 - n.tmod 8).toNat
  o.put (pt + n.tdiv 8) (UInt8.ofNat (if v then b ||| mask else b &&& (0xffffffff ^^^ mask)))

def getByteAtBit (mem : Int → UInt8) (pt num : Int) : UInt8 :=
  let ind := num.tdiv 8
  let mod := (num.tmod 8).toNat
  if num.tmod 8 = 0 then mem (pt + ind)
  else UInt8.ofNat ((mem (pt + ind)).toNat <<< mod ||| (mem (pt + (ind + 1))).toNat >>> (8 - mod))

def setByteAtBit (o : Out) (pt num : Int) (val : UInt8) : Out :=
  let ind := num.tdiv 8
  let mod := (num.tmod 8).toNat
  if num.tmod 8 = 0 then o.put (pt + ind) val
  else
    let mv1 := 0xff <<< (8 - mod) % 256
    let o := o.put (pt + ind)
      (UInt8.ofNat ((o.cells (pt + ind)).toNat &&& mv1 ||| val.toNat >>> mod))
    let mv2 := 0xff >>> mod
    o.put (pt + (ind + 1))
      (UInt8.ofNat ((o.cells (pt + (ind + 1))).toNat &&& mv2 ||| val.toNat <<< (8 - mod)))

/-! ### The two loops -/

/-- The loop of `comprime`; the position of a bit is an `int32` where it is used. -/
def comprimeLoop (val : UInt8) (lgin : Nat) (pt : Int) :
    List UInt8 → UInt32 → Out → UInt32 × Out
  | [], nbbit, out => (nbbit, out)
  | b :: bs, nbbit, out =>
    if lgin ≤ ((nbbit + 8) / 8).toNat then (0, out)
    else if b = val then
      comprimeLoop val lgin pt bs (nbbit + 1) (setBit out pt nbbit.toInt32.toInt false)
    else
      comprimeLoop val lgin pt bs (nbbit + 1 + 8)
        (setByteAtBit (setBit out pt nbbit.toInt32.toInt true) pt (nbbit + 1).toInt32.toInt b)

/-- `comprime`: the number of bits, and the memory behind `pt` written. -/
def comprime (val : UInt8) (inp : List UInt8) (mem : Int → UInt8) (pt : Int) : UInt32 × Out :=
  comprimeLoop val inp.length pt inp 0 ⟨mem, []⟩

/-- The loop of `decomprime`, whose counter is an `int32`; it may not end. -/
def decomprimeLoop (val : UInt8) (mem : Int → UInt8) (pt : Int) (lginbits : UInt32) :
    Nat → Int32 → Option (List UInt8)
  | 0, _ => none
  | fuel + 1, i =>
    if i.toUInt32 < lginbits then
      if getBit mem pt i.toInt then
        (decomprimeLoop val mem pt lginbits fuel (i + 1 + 8)).map
          (getByteAtBit mem pt (i + 1).toInt :: ·)
      else (decomprimeLoop val mem pt lginbits fuel (i + 1)).map (val :: ·)
    else some []

/-- `decomprime`: the number of bytes, and the bytes stored at `out`. -/
def decomprime (val : UInt8) (mem : Int → UInt8) (pt : Int) (lginbits : UInt32) :
    Option (Nat × List UInt8) :=
  (decomprimeLoop val mem pt lginbits (lginbits.toNat + 1) 0).map fun out => (out.length, out)

/-- `XoMemDeflate`, with `out` at address 0 of the memory. -/
def xoMemDeflate (inp : List UInt8) (mem : Int → UInt8) : Nat × Out :=
  let (nbbit, out) := comprime 0 inp mem 1
  if nbbit = 0 then (0, out)
  else
    let left := nbbit % 8
    let nbbyt := if left = 0 then nbbit / 8 else nbbit / 8 + 1
    (nbbyt.toNat + 1, out.put 0 left.toUInt8)

/-- `XoMemInflate` on `lgin` bytes, with `pin` at address 0 of the memory. -/
def xoMemInflate (mem : Int → UInt8) (lgin : Nat) : Option (Nat × List UInt8) :=
  if (lgin : Int) - 1 ≤ 2 then some (0, [])
  else
    let left := mem 0
    if 8 ≤ left then some (0, [])
    else
      let nbbit := UInt32.ofNat ((lgin - 1) * 8)
      decomprime 0 mem 1 (if left ≠ 0 then nbbit - (8 - left.toUInt32) else nbbit)

/-- `XoMemCompress`, with `out` at address 0 of the memory. -/
def xoMemCompress (inp : List UInt8) (mem : Int → UInt8) : Int32 × Out :=
  let (nbbit, out) := comprime 0 inp mem 0
  (nbbit.toInt32, out)

/-- `XoMemUnCompress`, with `in` at address 0 of the memory. -/
def xoMemUnCompress (mem : Int → UInt8) (lginbits : Int32) : Option (Nat × List UInt8) :=
  decomprime 0 mem 0 lginbits.toUInt32

/-- What is compressed comes back: the bytes of `XoMemDeflate` are few, hold every bit that was
written and inflate to the buffer, whatever the memory holds elsewhere; and `XoMemUnCompress`
undoes `XoMemCompress`. -/
structure Lossless (inp : List UInt8) (mem : Int → UInt8) : Prop where
  small : (xoMemDeflate inp mem).1 ≤ inp.length + 1
  written : ∀ a ∈ (xoMemDeflate inp mem).2.written, 0 ≤ a ∧ a < (xoMemDeflate inp mem).1
  inflate : ∀ mem' : Int → UInt8,
    (∀ a : Nat, a < (xoMemDeflate inp mem).1 → mem' a = (xoMemDeflate inp mem).2.cells a) →
      xoMemInflate mem' (xoMemDeflate inp mem).1 = some (inp.length, inp)
  unCompress : (xoMemCompress inp mem).1 ≠ 0 →
    xoMemUnCompress (xoMemCompress inp mem).2.cells (xoMemCompress inp mem).1 =
      some (inp.length, inp)

/-- The bits that bytes take. -/
def bits (val : UInt8) (inp : List UInt8) : Nat := (inp.map fun b => if b = val then 1 else 9).sum

/-- The positions at which a flag or a byte starts, from position `p` on. -/
def starts (val : UInt8) : Nat → List UInt8 → List Nat
  | _, [] => []
  | p, b :: bs =>
    if b = val then p :: starts val (p + 1) bs else p :: (p + 1) :: starts val (p + 9) bs

/-! ### Bits behind a pointer are bits of a memory -/

/-- The bytes from an address on. -/
def view (mem : Int → UInt8) (pt : Int) : Nat → UInt8 := fun k => mem (pt + k)

variable {mem : Int → UInt8} {o : Out} {pt : Int} {val b : UInt8} {bs inp : List UInt8}
  {n lginbits : UInt32} {i : Int32} {p j k lgin fuel : Nat}

theorem toInt_toInt32 (h : n.toNat < 2 ^ 31) : n.toInt32.toInt = n.toNat := by
  have : n.toInt32.toInt = n.toBitVec.toInt := rfl
  rw [this, BitVec.toInt_eq_toNat_cond, if_pos (by simp only [UInt32.toNat_toBitVec]; omega)]
  rfl

theorem toInt_toInt32_tdiv (h : 2 ^ 31 ≤ n.toNat) (h' : n.toNat < 2 ^ 31 + 16) :
    n.toInt32.toInt.tdiv 8 < -2 := by
  have hint : n.toInt32.toInt = n.toBitVec.toInt := rfl
  rw [hint, BitVec.toInt_eq_toNat_cond, if_neg (by simp only [UInt32.toNat_toBitVec]; omega)]
  simp only [UInt32.toNat_toBitVec]
  have hneg : ((n.toNat : Int) - (2 ^ 32 : Nat)).tdiv 8 =
      -(((2 ^ 32 - n.toNat) / 8 : Nat) : Int) := by
    rw [show (n.toNat : Int) - (2 ^ 32 : Nat) = -((2 ^ 32 - n.toNat : Nat) : Int) by omega,
      Int.neg_tdiv]
    rfl
  omega

theorem view_put :
    view (o.put (pt + (k : Int)) b).cells pt = update (view o.cells pt) k b := by
  funext l
  by_cases h : l = k
  · rw [h, update_self]
    exact Out.put_self ..
  · rw [update_of_ne h]
    exact Out.put_of_ne _ _ (by omega)

theorem tmod_natCast : (p : Int).tmod 8 = ((p % 8 : Nat) : Int) := rfl

theorem tdiv_natCast : (p : Int).tdiv 8 = ((p / 8 : Nat) : Int) := rfl

theorem shift_natCast : (7 - (p : Int).tmod 8).toNat = 7 - p % 8 := by
  rw [tmod_natCast]
  omega

theorem getBit_natCast : getBit mem pt (p : Int) = bit (view mem pt) p := by
  rw [getBit, shift_natCast, Nat.one_shiftLeft, Nat.and_two_pow, tdiv_natCast, bit, view]
  cases ((mem (pt + ((p / 8 : Nat) : Int))).toNat.testBit (7 - p % 8)) <;> simp

theorem setBit_natCast {v : Bool} :
    view (setBit o pt (p : Int) v).cells pt = BitField.setBit (view o.cells pt) p v := by
  rw [setBit, tdiv_natCast, shift_natCast, view_put, BitField.setBit]
  rw [withBit, view, apply_ite UInt8.ofNat, ofNat_and_xor]

theorem toNat_getByteAtBit : (getByteAtBit mem pt (p : Int)).toNat = field (view mem pt) p 8 := by
  rw [getByteAtBit, tdiv_natCast, tmod_natCast, Int.toNat_natCast]
  by_cases hmod : p % 8 = 0
  · obtain ⟨k, rfl⟩ : ∃ k, p = 8 * k := ⟨p / 8, by omega⟩
    rw [if_pos (by omega), field_byte, Nat.mul_div_cancel_left k (by omega), view]
  · rw [if_neg (by omega)]
    refine Nat.eq_of_testBit_eq fun t => ?_
    rw [testBit_ofNat, testBit_field]
    by_cases ht : t < 8
    · rw [Nat.testBit_or, Nat.testBit_shiftLeft, Nat.testBit_shiftRight, bit]
      by_cases hup : p % 8 ≤ t
      · rw [show (p + (8 - 1 - t)) / 8 = p / 8 by omega,
          show 7 - (p + (8 - 1 - t)) % 8 = t - p % 8 by omega,
          testBit_byte (show 8 ≤ 8 - p % 8 + t by omega), decide_eq_true hup,
          Bool.true_and, Bool.or_false, view]
      · rw [show (p + (8 - 1 - t)) / 8 = p / 8 + 1 by omega,
          show 7 - (p + (8 - 1 - t)) % 8 = 8 - p % 8 + t by omega, decide_eq_false hup,
          Bool.false_and, Bool.false_or, view, Int.natCast_add, Int.natCast_one]
    · simp only [ht, decide_false, Bool.false_and]

theorem bit_setByteAtBit :
    bit (view (setByteAtBit o pt (p : Int) b).cells pt) j =
      if p ≤ j ∧ j < p + 8 then b.toNat.testBit (p + 7 - j) else bit (view o.cells pt) j := by
  have hones : (0xff : Nat) = 2 ^ 8 - 1 := rfl
  simp only [setByteAtBit]
  rw [tdiv_natCast, tmod_natCast, Int.toNat_natCast]
  by_cases hmod : p % 8 = 0
  · rw [if_pos (by omega), view_put, bit, bit]
    by_cases hj : j / 8 = p / 8
    · rw [hj, update_self, if_pos (by omega), show p + 7 - j = 7 - j % 8 by omega]
    · rw [update_of_ne hj, if_neg (by omega)]
  · rw [if_neg (by omega), show ((p / 8 : Nat) : Int) + 1 = ((p / 8 + 1 : Nat) : Int) from rfl,
      view_put, view_put, bit, bit]
    by_cases hnext : j / 8 = p / 8 + 1
    · rw [hnext, update_self, testBit_ofNat, Nat.testBit_or, Nat.testBit_and,
        hones, Nat.testBit_shiftRight, Nat.testBit_two_pow_sub_one, Nat.testBit_shiftLeft,
        decide_eq_true (show 7 - j % 8 < 8 by omega), Bool.true_and]
      have hcell : (o.put (pt + ((p / 8 : Nat) : Int)) (UInt8.ofNat
          ((o.cells (pt + ((p / 8 : Nat) : Int))).toNat &&& (2 ^ 8 - 1) <<< (8 - p % 8) % 256 |||
            b.toNat >>> (p % 8)))).cells (pt + ((p / 8 + 1 : Nat) : Int)) =
          view o.cells pt (p / 8 + 1) := Out.put_of_ne _ _ (by omega)
      rw [hcell]
      by_cases hin : j < p + 8
      · rw [if_pos ⟨by omega, hin⟩, decide_eq_false (by omega), Bool.and_false, Bool.false_or,
          decide_eq_true (by omega), Bool.true_and,
          show 7 - j % 8 - (8 - p % 8) = p + 7 - j by omega]
      · rw [if_neg fun h => hin h.2, decide_eq_true (by omega), Bool.and_true,
          decide_eq_false (by omega), Bool.false_and, Bool.or_false]
    · rw [update_of_ne hnext]
      by_cases hj : j / 8 = p / 8
      · rw [hj, update_self, testBit_ofNat, Nat.testBit_or, Nat.testBit_and,
          hones, show (256 : Nat) = 2 ^ 8 from rfl, Nat.testBit_mod_two_pow,
          Nat.testBit_shiftRight, Nat.testBit_shiftLeft, Nat.testBit_two_pow_sub_one,
          decide_eq_true (show 7 - j % 8 < 8 by omega), Bool.true_and, Bool.true_and]
        by_cases hin : p ≤ j
        · rw [if_pos ⟨hin, by omega⟩, decide_eq_false (by omega), Bool.false_and, Bool.and_false,
            Bool.false_or, show p % 8 + (7 - j % 8) = p + 7 - j by omega]
        · rw [if_neg fun h => hin h.1, decide_eq_true (by omega), decide_eq_true (by omega),
            Bool.true_and, Bool.and_true,
            testBit_byte (b := b) (show 8 ≤ p % 8 + (7 - j % 8) by omega),
            Bool.or_false, view]
      · rw [update_of_ne hj, if_neg (by omega)]

theorem written_setBit {v : Bool} {a : Int} (ha : a ∈ (setBit o pt (p : Int) v).written) :
    a ∈ o.written ∨ ∃ k : Nat, a = pt + (k : Int) ∧ 8 * k ≤ p := by
  rcases mem_cons.mp ha with rfl | ha
  · exact .inr ⟨p / 8, rfl, by omega⟩
  · exact .inl ha

theorem written_setByteAtBit {a : Int} (ha : a ∈ (setByteAtBit o pt (p : Int) b).written) :
    a ∈ o.written ∨ ∃ k : Nat, a = pt + (k : Int) ∧ 8 * k ≤ p + 7 := by
  simp only [setByteAtBit] at ha
  rw [tdiv_natCast, tmod_natCast] at ha
  by_cases hmod : p % 8 = 0
  · rw [if_pos (by omega)] at ha
    rcases mem_cons.mp ha with rfl | ha
    · exact .inr ⟨p / 8, rfl, by omega⟩
    · exact .inl ha
  · rw [if_neg (by omega)] at ha
    rcases mem_cons.mp ha with rfl | ha
    · exact .inr ⟨p / 8 + 1, rfl, by omega⟩
    · rcases mem_cons.mp ha with rfl | ha
      · exact .inr ⟨p / 8, rfl, by omega⟩
      · exact .inl ha

/-! ### Compressed bytes in a memory -/

@[simp] theorem bits_nil : bits val [] = 0 := rfl

@[simp]
theorem bits_cons : bits val (b :: bs) = (if b = val then 1 else 9) + bits val bs := rfl

theorem length_le_bits : bs.length ≤ bits val bs := by
  induction bs with
  | nil => exact le_rfl
  | cons b bs ih =>
    rw [bits_cons, length_cons]
    split <;> omega

/-- The bits behind position `p` are the flags and bytes of compressed bytes. -/
def Carries (val : UInt8) (m : Nat → UInt8) : Nat → List UInt8 → Prop
  | _, [] => True
  | p, b :: bs =>
    if b = val then bit m p = false ∧ Carries val m (p + 1) bs
    else bit m p = true ∧ field m (p + 1) 8 = b.toNat ∧ Carries val m (p + 9) bs

theorem Carries.congr {m m' : Nat → UInt8}
    (h : ∀ j < p + bits val bs, bit m j = bit m' j) (hm : Carries val m p bs) :
    Carries val m' p bs := by
  induction bs generalizing p with
  | nil => trivial
  | cons b bs ih =>
    rw [bits_cons] at h
    rw [Carries] at hm ⊢
    by_cases hb : b = val
    · rw [if_pos hb] at h hm ⊢
      exact ⟨h p (by omega) ▸ hm.1, ih (fun j hj => h j (by omega)) hm.2⟩
    · rw [if_neg hb] at h hm ⊢
      refine ⟨h p (by omega) ▸ hm.1, ?_, ih (fun j hj => h j (by omega)) hm.2.2⟩
      rw [← hm.2.1]
      exact field_congr fun t ht => (h _ (by omega)).symm

/-! ### Positions below `2 ^ 31` -/

theorem starts_of_eq (hb : b = val) :
    starts val p (b :: bs) = p :: starts val (p + 1) bs := if_pos hb

theorem starts_of_ne (hb : b ≠ val) :
    starts val p (b :: bs) = p :: (p + 1) :: starts val (p + 9) bs := if_neg hb

theorem toNat_add_one (hn : n.toNat < 2 ^ 31 + 9) : (n + 1).toNat = n.toNat + 1 := by
  rw [UInt32.toNat_add, UInt32.toNat_one]
  omega

theorem toNat_add_nine (hn : n.toNat < 2 ^ 31 + 9) : (n + 1 + 8).toNat = n.toNat + 9 := by
  rw [UInt32.toNat_add, toNat_add_one hn, show (8 : UInt32).toNat = 8 from rfl]
  omega

theorem bits_of_starts (h : ∀ q ∈ starts val p bs, q < 2 ^ 31) (hp : p < 2 ^ 31 + 9) :
    p + bits val bs < 2 ^ 31 + 9 := by
  induction bs generalizing p with
  | nil => exact hp
  | cons b bs ih =>
    rw [bits_cons]
    by_cases hb : b = val
    · rw [starts_of_eq hb, forall_mem_cons] at h
      rw [if_pos hb, ← Nat.add_assoc]
      exact ih h.2 (by omega)
    · rw [starts_of_ne hb, forall_mem_cons] at h
      rw [if_neg hb, ← Nat.add_assoc]
      exact ih (forall_mem_cons.mp h.2).2 (by omega)

/-- What the loop of `comprime` has done when it returns a number of bits. -/
structure Compressed (val : UInt8) (lgin : Nat) (pt : Int) (n : UInt32) (bs : List UInt8) (o : Out)
    (r : UInt32 × Out) : Prop where
  count : r.1.toNat = n.toNat + bits val bs
  small : n.toNat ≤ 8 * lgin → r.1.toNat ≤ 8 * lgin
  carries : Carries val (view r.2.cells pt) n.toNat bs
  before : ∀ j < n.toNat, bit (view r.2.cells pt) j = bit (view o.cells pt) j
  written : ∀ a ∈ r.2.written, a ∈ o.written ∨ ∃ k : Nat, a = pt + (k : Int) ∧ 8 * k < r.1.toNat

theorem Compressed.of_eq {r : UInt32 × Out} (hb : b = val) (hone : (n + 1).toNat = n.toNat + 1)
    (hroom : (n.toNat + 8) / 8 < lgin)
    (hrest : Compressed val lgin pt (n + 1) bs (setBit o pt (n.toNat : Int) false) r) :
    Compressed val lgin pt n (b :: bs) o r := by
  have hcount := hrest.count
  have hflag := hrest.before n.toNat (by omega)
  rw [setBit_natCast, bit_setBit, if_pos rfl] at hflag
  refine ⟨?_, fun hle => hrest.small (by omega), ?_, fun j hj => ?_, fun a ha => ?_⟩
  · rw [hcount, hone, bits_cons, if_pos hb, Nat.add_assoc]
  · rw [Carries, if_pos hb]
    exact ⟨hflag, hone ▸ hrest.carries⟩
  · rw [hrest.before j (by omega), setBit_natCast, bit_setBit, if_neg (by omega)]
  · refine (hrest.written a ha).elim (fun ha => (written_setBit ha).imp_right ?_) .inr
    rintro ⟨k, rfl, hk⟩
    exact ⟨k, rfl, by omega⟩

theorem Compressed.of_ne {r : UInt32 × Out} (hb : b ≠ val) (hnine : (n + 1 + 8).toNat = n.toNat + 9)
    (hroom : (n.toNat + 8) / 8 < lgin)
    (hrest : Compressed val lgin pt (n + 1 + 8) bs
      (setByteAtBit (setBit o pt (n.toNat : Int) true) pt ((n.toNat + 1 : Nat) : Int) b) r) :
    Compressed val lgin pt n (b :: bs) o r := by
  have hcount := hrest.count
  have hitem (j : Nat) (hj : j < n.toNat + 9) := hrest.before j (by omega)
  simp only [bit_setByteAtBit, setBit_natCast, bit_setBit] at hitem
  refine ⟨?_, fun hle => hrest.small (by omega), ?_, fun j hj => ?_, fun a ha => ?_⟩
  · rw [hcount, hnine, bits_cons, if_neg hb, Nat.add_assoc]
  · rw [Carries, if_neg hb]
    refine ⟨?_, ?_, hnine ▸ hrest.carries⟩
    · rw [hitem _ (by omega), if_neg (by omega), if_pos rfl]
    · refine Nat.eq_of_testBit_eq fun t => ?_
      rw [testBit_field]
      by_cases ht : t < 8
      · rw [decide_eq_true ht, Bool.true_and, hitem _ (by omega), if_pos (by omega),
          show n.toNat + 1 + 7 - (n.toNat + 1 + (8 - 1 - t)) = t by omega]
      · rw [decide_eq_false ht, Bool.false_and, testBit_byte (by omega)]
  · rw [hitem j (by omega), if_neg (by omega), if_neg (by omega)]
  · refine (hrest.written a ha).elim (fun ha => ?_) .inr
    rcases written_setByteAtBit ha with ha | ⟨k, rfl, hk⟩
    · refine (written_setBit ha).imp_right ?_
      rintro ⟨k, rfl, hk⟩
      exact ⟨k, rfl, by omega⟩
    · exact .inr ⟨k, rfl, by omega⟩

theorem comprimeLoop_compressed (h : ∀ q ∈ starts val n.toNat bs, q < 2 ^ 31)
    (hn : n.toNat < 2 ^ 31 + 9) (hr : (comprimeLoop val lgin pt bs n o).1 ≠ 0) :
    Compressed val lgin pt n bs o (comprimeLoop val lgin pt bs n o) := by
  induction bs generalizing n o with
  | nil => exact ⟨rfl, id, trivial, fun _ _ => rfl, fun a ha => .inl ha⟩
  | cons b bs ih =>
    have hstart : n.toNat < 2 ^ 31 := h _ (by rw [starts]; split <;> exact mem_cons_self)
    have hone := toNat_add_one hn
    have hnine := toNat_add_nine hn
    have height : ((n + 8) / 8).toNat = (n.toNat + 8) / 8 := by
      rw [UInt32.toNat_div, UInt32.toNat_add, show (8 : UInt32).toNat = 8 from rfl]
      omega
    rw [comprimeLoop] at hr ⊢
    by_cases hfull : lgin ≤ ((n + 8) / 8).toNat
    · rw [if_pos hfull] at hr
      exact absurd rfl hr
    rw [if_neg hfull] at hr ⊢
    rw [height, Nat.not_le] at hfull
    by_cases hb : b = val
    · rw [if_pos hb, toInt_toInt32 hstart] at hr ⊢
      rw [starts_of_eq hb, forall_mem_cons, ← hone] at h
      exact .of_eq hb hone hfull (ih h.2 (by omega) hr)
    · rw [if_neg hb] at hr ⊢
      rw [starts_of_ne hb, forall_mem_cons, forall_mem_cons, ← hnine] at h
      rw [toInt_toInt32 hstart, toInt_toInt32 (by omega), hone] at hr ⊢
      exact .of_ne hb hnine hfull (ih h.2.2 (by omega) hr)

theorem decomprimeLoop_carries (h : ∀ q ∈ starts val i.toUInt32.toNat bs, q < 2 ^ 31)
    (hi : i.toUInt32.toNat < 2 ^ 31 + 9)
    (hm : Carries val (view mem pt) i.toUInt32.toNat bs)
    (hend : i.toUInt32.toNat + bits val bs = lginbits.toNat) (hfuel : bs.length < fuel) :
    decomprimeLoop val mem pt lginbits fuel i = some bs := by
  induction bs generalizing i fuel with
  | nil =>
    obtain ⟨fuel, rfl⟩ := Nat.exists_eq_succ_of_ne_zero (Nat.ne_of_gt hfuel)
    rw [decomprimeLoop, if_neg]
    rw [UInt32.lt_iff_toNat_lt, ← hend]
    exact Nat.lt_irrefl _
  | cons b bs ih =>
    obtain ⟨fuel, rfl⟩ := Nat.exists_eq_succ_of_ne_zero (Nat.ne_zero_of_lt hfuel)
    have hstart : i.toUInt32.toNat < 2 ^ 31 :=
      h _ (by rw [starts]; split <;> exact mem_cons_self)
    have hone : (i + 1).toUInt32.toNat = i.toUInt32.toNat + 1 :=
      (congrArg UInt32.toNat (Int32.toUInt32_add i 1)).trans (toNat_add_one hi)
    have hnine : (i + 1 + 8).toUInt32.toNat = i.toUInt32.toNat + 9 := by
      exact toNat_add_nine hi
    have hpos : i.toInt = i.toUInt32.toNat := toInt_toInt32 hstart
    have hlen : bs.length < fuel := Nat.lt_of_succ_lt_succ hfuel
    rw [bits_cons] at hend
    rw [Carries] at hm
    have hlt : i.toUInt32 < lginbits := by
      rw [UInt32.lt_iff_toNat_lt]
      split at hend <;> omega
    rw [decomprimeLoop, if_pos hlt, hpos, getBit_natCast]
    by_cases hb : b = val
    · rw [if_pos hb] at hm hend
      rw [starts_of_eq hb, forall_mem_cons, ← hone] at h
      rw [hm.1, if_neg Bool.false_ne_true, ih h.2 (by omega) (hone ▸ hm.2) (by omega) hlen, hb,
        Option.map_some]
    · rw [if_neg hb] at hm hend
      rw [starts_of_ne hb, forall_mem_cons, forall_mem_cons, ← hnine] at h
      have hnext : (i + 1).toInt = ((i.toUInt32.toNat + 1 : Nat) : Int) :=
        hone ▸ toInt_toInt32 (hone ▸ h.2.1)
      have hbyte : getByteAtBit mem pt (i + 1).toInt = b := by
        rw [← UInt8.toNat_inj, hnext, toNat_getByteAtBit, hm.2.1]
      rw [hm.1, if_pos rfl, hbyte, ih h.2.2 (by omega) (hnine ▸ hm.2.2) (by omega) hlen,
        Option.map_some]

theorem decomprime_carries (h : ∀ q ∈ starts val 0 inp, q < 2 ^ 31)
    (hm : Carries val (view mem pt) 0 inp) (hend : bits val inp = lginbits.toNat) :
    decomprime val mem pt lginbits = some (inp.length, inp) := by
  have hfuel : inp.length < lginbits.toNat + 1 := Nat.lt_succ_of_le (hend ▸ length_le_bits)
  have hzero : (0 : Int32).toUInt32.toNat = 0 := rfl
  rw [decomprime, decomprimeLoop_carries (i := 0) h (by omega) hm (by omega) hfuel, Option.map_some]

/-! ### Positions from `2 ^ 31` on -/

theorem mem_written_setByteAtBit {a q : Int} (ha : a ∈ o.written) :
    a ∈ (setByteAtBit o pt q b).written := by
  simp only [setByteAtBit]
  split
  · exact mem_cons_of_mem _ ha
  · exact mem_cons_of_mem _ (mem_cons_of_mem _ ha)

theorem written_comprimeLoop {a : Int} (ha : a ∈ o.written) :
    a ∈ (comprimeLoop val lgin pt bs n o).2.written := by
  induction bs generalizing n o with
  | nil => exact ha
  | cons b bs ih =>
    rw [comprimeLoop]
    split
    · exact ha
    · split
      · exact ih (mem_cons_of_mem _ ha)
      · exact ih (mem_written_setByteAtBit (mem_cons_of_mem _ ha))

theorem comprimeLoop_before (h : ∃ q ∈ starts val n.toNat bs, 2 ^ 31 ≤ q)
    (hn : n.toNat < 2 ^ 31 + 9) (hr : (comprimeLoop val lgin pt bs n o).1 ≠ 0) :
    ∃ a ∈ (comprimeLoop val lgin pt bs n o).2.written, a < pt - 1 := by
  induction bs generalizing n o with
  | nil =>
    obtain ⟨q, hq, -⟩ := h
    exact absurd hq not_mem_nil
  | cons b bs ih =>
    have hone := toNat_add_one hn
    have hnine := toNat_add_nine hn
    rw [comprimeLoop] at hr ⊢
    by_cases hfull : lgin ≤ ((n + 8) / 8).toNat
    · rw [if_pos hfull] at hr
      exact absurd rfl hr
    rw [if_neg hfull] at hr ⊢
    have hfar {n : UInt32} (hlow : 2 ^ 31 ≤ n.toNat) (hup : n.toNat < 2 ^ 31 + 16) :
        pt + n.toInt32.toInt.tdiv 8 < pt - 1 := by
      have := toInt_toInt32_tdiv hlow hup
      omega
    have hbyte {q : Int} {o : Out} : pt + q.tdiv 8 ∈ (setByteAtBit o pt q b).written := by
      simp only [setByteAtBit]
      split
      · exact mem_cons_self
      · exact mem_cons_of_mem _ mem_cons_self
    by_cases hstart : 2 ^ 31 ≤ n.toNat
    · refine ⟨pt + n.toInt32.toInt.tdiv 8, ?_, hfar hstart (by omega)⟩
      split
      · exact written_comprimeLoop mem_cons_self
      · exact written_comprimeLoop (mem_written_setByteAtBit mem_cons_self)
    · obtain ⟨q, hq, hbig⟩ := h
      by_cases hb : b = val
      · rw [if_pos hb] at hr ⊢
        rw [starts_of_eq hb, mem_cons] at hq
        exact ih ⟨q, hone ▸ hq.resolve_left (by omega), hbig⟩ (by omega) hr
      · rw [if_neg hb] at hr ⊢
        rw [starts_of_ne hb, mem_cons, mem_cons] at hq
        rcases hq.resolve_left (by omega) with hq | hq
        · exact ⟨_, written_comprimeLoop hbyte, hfar (by omega) (by omega)⟩
        · exact ih ⟨q, hnine ▸ hq, hbig⟩ (by omega) hr

/-! ### Which buffers come back -/

theorem comprime_compressed (h : ∀ q ∈ starts val 0 inp, q < 2 ^ 31)
    (hr : (comprime val inp mem pt).1 ≠ 0) :
    Compressed val inp.length pt 0 inp ⟨mem, []⟩ (comprime val inp mem pt) :=
  comprimeLoop_compressed h (by decide) hr

theorem xoMemDeflate_of_ne_zero (hr : (comprime 0 inp mem 1).1 ≠ 0) :
    xoMemDeflate inp mem =
      (((comprime 0 inp mem 1).1.toNat + 7) / 8 + 1,
        (comprime 0 inp mem 1).2.put 0 ((comprime 0 inp mem 1).1 % 8).toUInt8) := by
  generalize hc : comprime 0 inp mem 1 = c at hr ⊢
  have hmod : (c.1 % 8).toNat = c.1.toNat % 8 := UInt32.toNat_mod ..
  have hdiv : (c.1 / 8).toNat = c.1.toNat / 8 := UInt32.toNat_div ..
  have hzero : c.1 % 8 = 0 ↔ c.1.toNat % 8 = 0 := by
    rw [← UInt32.toNat_inj, hmod]
    rfl
  have hlt : c.1.toNat < 2 ^ 32 := c.1.toNat_lt
  simp only [xoMemDeflate, hc]
  rw [if_neg hr]
  refine Prod.ext ?_ rfl
  by_cases hleft : c.1 % 8 = 0
  · rw [if_pos hleft, hdiv]
    have := hzero.mp hleft
    omega
  · rw [if_neg hleft, UInt32.toNat_add, hdiv, UInt32.toNat_one]
    have := mt hzero.mpr hleft
    omega

theorem xoMemDeflate_of_eq_zero (hr : (comprime 0 inp mem 1).1 = 0) :
    (xoMemDeflate inp mem).1 = 0 := by
  simp only [xoMemDeflate]
  rw [if_pos hr]

theorem xoMemInflate_of_count (h : mem 0 = (n % 8).toUInt8) (hn : n.toNat < 2 ^ 31 + 9)
    (hbits : 16 < n.toNat) : xoMemInflate mem ((n.toNat + 7) / 8 + 1) = decomprime 0 mem 1 n := by
  have hleft : (mem 0).toNat = n.toNat % 8 := by
    rw [h, UInt32.toNat_toUInt8, UInt32.toNat_mod, show (8 : UInt32).toNat = 8 from rfl]
    omega
  have hsmall : ¬8 ≤ mem 0 := by
    rw [UInt8.le_iff_toNat_le, hleft, show (8 : UInt8).toNat = 8 from rfl]
    omega
  have hcount : (if mem 0 ≠ 0 then
      UInt32.ofNat (((n.toNat + 7) / 8 + 1 - 1) * 8) - (8 - (mem 0).toUInt32)
      else UInt32.ofNat (((n.toNat + 7) / 8 + 1 - 1) * 8)) = n := by
    have hzero : mem 0 ≠ 0 ↔ n.toNat % 8 ≠ 0 := by
      rw [Ne, ← UInt8.toNat_inj, hleft]
      rfl
    have hall : (UInt32.ofNat (((n.toNat + 7) / 8 + 1 - 1) * 8)).toNat = (n.toNat + 7) / 8 * 8 := by
      rw [UInt32.toNat_ofNat']
      omega
    rw [← UInt32.toNat_inj]
    by_cases hmod : n.toNat % 8 = 0
    · rw [if_neg (by rw [hzero]; exact not_not_intro hmod), hall]
      omega
    · have hsub : (8 - (mem 0).toUInt32).toNat = 8 - n.toNat % 8 := by
        rw [UInt32.toNat_sub, UInt8.toNat_toUInt32, hleft, show (8 : UInt32).toNat = 8 from rfl]
        omega
      rw [if_pos (hzero.mpr hmod), UInt32.toNat_sub, hsub, hall]
      omega
  simp only [xoMemInflate]
  rw [if_neg (by omega), if_neg hsmall, hcount]

theorem xoMemInflate_of_le {m : Nat} (h : m ≤ 3) : xoMemInflate mem m = some (0, []) :=
  if_pos (by omega)

/-- **Which buffers come back** among those that `XoMemDeflate` accepts: those that take more than
16 bits, and in which no flag and no byte starts from bit `2 ^ 31` on. -/
theorem deflate_lossless_iff (h : 0 < (xoMemDeflate inp mem).1) :
    Lossless inp mem ↔ 16 < bits 0 inp ∧ ∀ q ∈ starts 0 0 inp, q < 2 ^ 31 := by
  have hr : (comprime 0 inp mem 1).1 ≠ 0 := fun hr => Nat.ne_of_gt h (xoMemDeflate_of_eq_zero hr)
  have hdeflate := xoMemDeflate_of_ne_zero hr
  constructor
  · intro hl
    have hstarts : ∀ q ∈ starts 0 0 inp, q < 2 ^ 31 := by
      by_contra hbad
      push Not at hbad
      obtain ⟨a, ha, hneg⟩ := comprimeLoop_before (o := ⟨mem, []⟩) hbad (by decide) hr
      have := (hl.written a (by rw [hdeflate]; exact mem_cons_of_mem _ ha)).1
      omega
    refine ⟨Nat.lt_of_not_le fun hfew => ?_, hstarts⟩
    have hcount := (comprime_compressed hstarts hr).count
    rw [show (0 : UInt32).toNat = 0 from rfl, Nat.zero_add] at hcount
    have hrefused := hl.inflate _ fun _ _ => rfl
    rw [xoMemInflate_of_le (by rw [hdeflate, hcount]; simp only; omega)] at hrefused
    have hnil : inp = [] := (congrArg Prod.snd (Option.some.inj hrefused)).symm
    exact hr (by rw [hnil]; rfl)
  · rintro ⟨hmany, hstarts⟩
    have hc := comprime_compressed hstarts hr
    have hcount := hc.count
    have hsmall := hc.small (Nat.zero_le _)
    have hlt := bits_of_starts hstarts (by decide)
    rw [show (0 : UInt32).toNat = 0 from rfl, Nat.zero_add] at hcount
    refine ⟨?_, fun a ha => ?_, fun mem' hmem => ?_, fun hne => ?_⟩
    · rw [hdeflate]
      omega
    · rw [hdeflate] at ha ⊢
      rcases mem_cons.mp ha with rfl | ha
      · exact ⟨Int.le_refl 0, by simp only; omega⟩
      · rcases hc.written a ha with ha | ⟨k, rfl, hk⟩
        · exact absurd ha not_mem_nil
        · refine ⟨by omega, ?_⟩
          omega
    · rw [hdeflate] at hmem ⊢
      have hzero : mem' 0 = ((comprime 0 inp mem 1).1 % 8).toUInt8 :=
        (hmem 0 (by omega)).trans (Out.put_self ..)
      rw [xoMemInflate_of_count hzero (by omega) (by omega)]
      refine decomprime_carries hstarts (hc.carries.congr fun j hj => ?_) hcount.symm
      refine BitField.bit_congr ?_
      have hne : (1 : Int) + ((j / 8 : Nat) : Int) ≠ 0 := by omega
      have hcell := hmem (1 + j / 8) (by omega)
      exact (hcell.trans (Out.put_of_ne _ _ hne)).symm
    · have hr0 : (comprime 0 inp mem 0).1 ≠ 0 := fun h0 => hne (congrArg UInt32.toInt32 h0)
      have hc0 := comprime_compressed hstarts hr0
      have hcount0 := hc0.count
      rw [show (0 : UInt32).toNat = 0 from rfl, Nat.zero_add] at hcount0
      exact decomprime_carries hstarts hc0.carries hcount0.symm

/-- A byte and eight zeros take 17 bits and come back. -/
theorem deflate_lossless_seventeen : Lossless [1, 0, 0, 0, 0, 0, 0, 0, 0] fun _ => 0 :=
  (deflate_lossless_iff (by decide)).mpr ⟨by decide, by decide⟩

/-- Two zeros take two bytes, and these are refused. -/
theorem not_lossless_two_zeros :
    ¬∀ (inp : List UInt8) (mem : Int → UInt8), 0 < (xoMemDeflate inp mem).1 → Lossless inp mem := by
  intro h
  have hrefused := (h [0, 0] (fun _ => 0) (by decide)).inflate _ fun _ _ => rfl
  rw [xoMemInflate_of_le (by decide)] at hrefused
  exact absurd (congrArg (Option.map Prod.fst) hrefused) (by decide)

end Ong.Xo
