import Mathlib.Data.List.Basic

/-!
# Options in delta coding

Options are written in ascending order of their numbers, each as a byte with the difference to the
number before and the length of its value, a second byte for a longer value, and the value.  A
reader goes through a given number of options and hands each to its handler, which sees the bytes
from the value on, to the end of the message.

## Main definitions

* `DeltaOptions.encode`: the options of a list
* `DeltaOptions.read`: the reader's loop
* `DeltaOptions.readWithin`: the same that stops at the end of the message
* `DeltaOptions.visit`: what the handler is called with
* `DeltaOptions.Along`: a condition on every option

## Main results

* `read_encode`: the reader hands over the options that were written
* `readWithin_eq_some_iff`: the options within a message
* `isSome_visit`: when a handler gets through
-/

namespace Ong.DeltaOptions

open List

/-- One option after the option number `prev`. -/
def encodeOne (prev opt : Nat) (value : List UInt8) : List UInt8 :=
  if value.length < 15 then UInt8.ofNat ((opt - prev) * 16 + value.length) :: value
  else UInt8.ofNat ((opt - prev) * 16 + 15) :: UInt8.ofNat (value.length - 15) :: value

/-- The options of a list after the option number `prev`. -/
def encode : Nat → List (Nat × List UInt8) → List UInt8
  | _, [] => []
  | prev, (opt, value) :: os => encodeOne prev opt value ++ encode opt os

variable {σ : Type*} (handle : σ → Nat → Nat → List UInt8 → Option σ)

/-- The reader's loop over a number of options; the handler gets the option number, the length and
the bytes from the value on.  Bytes after the message are read as zero. -/
def read : Nat → Nat → σ → List UInt8 → Option (σ × List UInt8)
  | 0, _, st, pt => some (st, pt)
  | n + 1, option, st, pt =>
    let hd := (pt.headD 0).toNat
    let long := hd % 16 = 15
    let len := if long then 15 + (pt.tail.headD 0).toNat else hd % 16
    let pt := if long then pt.tail.tail else pt.tail
    (handle st (option + hd / 16) len pt).bind fun st => read n (option + hd / 16) st (pt.drop len)

/-- The same loop, with nothing for an option that is not within the message. -/
def readWithin : Nat → Nat → σ → List UInt8 → Option (σ × List UInt8)
  | 0, _, st, pt => some (st, pt)
  | _ + 1, _, _, [] => none
  | n + 1, option, st, hd :: pt =>
    let option := option + hd.toNat / 16
    let next (len : Nat) (pt : List UInt8) :=
      if pt.length < len then none
      else (handle st option len pt).bind fun st => readWithin n option st (pt.drop len)
    if hd.toNat % 16 = 15 then
      match pt with
      | [] => none
      | long :: pt => next (15 + long.toNat) pt
    else next (hd.toNat % 16) pt

/-- The handler called for the options of a list, in front of the bytes `rest`. -/
def visit (rest : List UInt8) : σ → List (Nat × List UInt8) → Option σ
  | st, [] => some st
  | st, (opt, value) :: os =>
    (handle st opt value.length (value ++ (encode opt os ++ rest))).bind fun st => visit rest st os

/-- Every option meets a condition on the state before it, its value and what lies behind. -/
def Along (meets : σ → Nat → List UInt8 → List UInt8 → Prop) (rest : List UInt8) :
    σ → List (Nat × List UInt8) → Prop
  | _, [] => True
  | st, (opt, value) :: os =>
    meets st opt value (encode opt os ++ rest) ∧
      ∀ st', handle st opt value.length (value ++ (encode opt os ++ rest)) = some st' →
        Along meets rest st' os

/-- The options can be written: they ascend by less than sixteen, and their values fit two bytes of
length. -/
def Encodable : Nat → List (Nat × List UInt8) → Prop
  | _, [] => True
  | prev, (opt, value) :: os =>
    prev ≤ opt ∧ opt - prev < 16 ∧ value.length ≤ 270 ∧ Encodable opt os

/-- Options in ascending order, with numbers up to `k`. -/
structure Ascending (os : List (Nat × List UInt8)) (k : Nat) : Prop where
  pairwise : os.Pairwise fun o o' => o.1 ≤ o'.1
  le : ∀ o ∈ os, o.1 ≤ k

/-- The number of the last option of a list, after `prev`. -/
def lastOption : Nat → List (Nat × List UInt8) → Nat
  | prev, [] => prev
  | _, (opt, _) :: os => lastOption opt os

variable {handle} {os : List (Nat × List UInt8)} {prev : Nat}

theorem encode_append (prev : Nat) (os os' : List (Nat × List UInt8)) :
    encode prev (os ++ os') = encode prev os ++ encode (lastOption prev os) os' := by
  induction os generalizing prev with
  | nil => rfl
  | cons o os ih =>
    rw [cons_append, encode, encode, ih, append_assoc, lastOption]

theorem ascending_nil (k : Nat) : Ascending [] k :=
  ⟨List.Pairwise.nil, fun _ h => absurd h not_mem_nil⟩

theorem Ascending.append {os' : List (Nat × List UInt8)} {k k' : Nat} (h : Ascending os k)
    (hk : k ≤ k') (hos' : ∀ o ∈ os', o.1 = k') : Ascending (os ++ os') k' := by
  refine ⟨pairwise_append.mpr ⟨h.pairwise, ?_, ?_⟩, ?_⟩
  · exact pairwise_of_forall_mem_list fun o ho o' ho' =>
      Nat.le_of_eq ((hos' o ho).trans (hos' o' ho').symm)
  · intro o ho o' ho'
    rw [hos' o' ho']
    exact Nat.le_trans (h.le o ho) hk
  · intro o ho
    rcases mem_append.mp ho with ho | ho
    · exact Nat.le_trans (h.le o ho) hk
    · exact Nat.le_of_eq (hos' o ho)

theorem encodable_of_pairwise (hsorted : os.Pairwise fun o o' => o.1 ≤ o'.1)
    (hprev : ∀ o ∈ os, prev ≤ o.1) (hsmall : ∀ o ∈ os, o.1 < 16 ∧ o.2.length ≤ 270) :
    Encodable prev os := by
  induction os generalizing prev with
  | nil => trivial
  | cons o os ih =>
    obtain ⟨hle, hos⟩ := pairwise_cons.mp hsorted
    obtain ⟨hopt, hlen⟩ := hsmall o mem_cons_self
    have ho := hprev o mem_cons_self
    exact ⟨ho, by omega, hlen, ih hos hle fun o ho => hsmall o (mem_cons_of_mem _ ho)⟩

theorem Ascending.encodable {k : Nat} (h : Ascending os k) (hk : k < 16)
    (hlen : ∀ o ∈ os, o.2.length ≤ 270) : Encodable 0 os :=
  encodable_of_pairwise h.pairwise (fun _ _ => Nat.zero_le _) fun o ho =>
    ⟨Nat.lt_of_le_of_lt (h.le o ho) hk, hlen o ho⟩

/-- What the reader finds in the first bytes of an option. -/
theorem encodeOne_cases {opt : Nat} {value : List UInt8} (hle : prev ≤ opt)
    (hdelta : opt - prev < 16) (hlen : value.length ≤ 270) :
    (∃ hd : UInt8, encodeOne prev opt value = hd :: value ∧ prev + hd.toNat / 16 = opt ∧
      hd.toNat % 16 = value.length ∧ value.length ≠ 15) ∨
    ∃ hd long : UInt8, encodeOne prev opt value = hd :: long :: value ∧
      prev + hd.toNat / 16 = opt ∧ hd.toNat % 16 = 15 ∧ 15 + long.toNat = value.length := by
  have hhead : ∀ k, k < 16 →
      (UInt8.ofNat ((opt - prev) * 16 + k)).toNat = (opt - prev) * 16 + k := by
    intro k hk
    rw [UInt8.toNat_ofNat']
    omega
  unfold encodeOne
  split
  · refine .inl ⟨_, rfl, ?_⟩
    rw [hhead value.length (by omega)]
    omega
  · refine .inr ⟨_, _, rfl, ?_⟩
    rw [hhead 15 (by omega), UInt8.toNat_ofNat']
    omega

/-- **The reader hands over the options that were written**, and stops behind them. -/
theorem read_encode (h : Encodable prev os) (st : σ) (rest : List UInt8) :
    read handle os.length prev st (encode prev os ++ rest) =
      (visit handle rest st os).map fun st => (st, rest) := by
  induction os generalizing prev st with
  | nil => rfl
  | cons o os ih =>
    obtain ⟨opt, value⟩ := o
    obtain ⟨hle, hdelta, hlen, hos⟩ := h
    rw [length_cons, read, encode, visit, Option.map_bind]
    rcases encodeOne_cases hle hdelta hlen with
      ⟨hd, heq, hopt, hmod, hne⟩ | ⟨hd, long, heq, hopt, hmod, hlong⟩
    · simp only [heq, cons_append, append_assoc, headD_cons, tail_cons, hopt, hmod,
        hne, if_false, drop_left, ih hos]
      rfl
    · simp only [heq, cons_append, append_assoc, headD_cons, tail_cons, hopt, hmod,
        hlong, if_true, drop_left, ih hos]
      rfl

theorem readWithin_encodeOne {n opt : Nat} {value : List UInt8} (hle : prev ≤ opt)
    (hdelta : opt - prev < 16) (hlen : value.length ≤ 270) (st : σ) (pt : List UInt8) :
    readWithin handle (n + 1) prev st (encodeOne prev opt value ++ pt) =
      (handle st opt value.length (value ++ pt)).bind fun st => readWithin handle n opt st pt := by
  have hnot : ¬(value ++ pt).length < value.length := by
    rw [length_append]
    omega
  rcases encodeOne_cases hle hdelta hlen with
    ⟨hd, heq, hopt, hmod, hne⟩ | ⟨hd, long, heq, hopt, hmod, hlong⟩
  · simp only [heq, cons_append, readWithin, hopt, hmod, hne, if_false, hnot, drop_left]
  · simp only [heq, cons_append, readWithin, hopt, hmod, hlong, if_true, if_false, hnot,
      drop_left]

theorem exists_encodeOne (handle : σ → Nat → Nat → List UInt8 → Option σ) (prev : Nat)
    (pt : List UInt8) :
    (∃ opt value rest, prev ≤ opt ∧ opt - prev < 16 ∧ value.length ≤ 270 ∧
      pt = encodeOne prev opt value ++ rest) ∨
      ∀ n st, readWithin handle (n + 1) prev st pt = none := by
  cases pt with
  | nil => exact .inr fun _ _ => rfl
  | cons hd pt =>
    have hhd : (prev + hd.toNat / 16 - prev) * 16 + hd.toNat % 16 = hd.toNat := by omega
    have hlt := hd.toNat_lt
    by_cases hlong : hd.toNat % 16 = 15
    · cases pt with
      | nil =>
        right
        intro n st
        simp only [readWithin, hlong, if_true]
      | cons long pt =>
        have hlong' := long.toNat_lt
        by_cases hlen : pt.length < 15 + long.toNat
        · right
          intro n st
          simp only [readWithin, hlong, if_true, hlen]
        · left
          have hvalue : (pt.take (15 + long.toNat)).length = 15 + long.toNat := by
            rw [length_take]
            omega
          refine ⟨prev + hd.toNat / 16, pt.take (15 + long.toNat), pt.drop (15 + long.toNat),
            by omega, by omega, by omega, ?_⟩
          rw [encodeOne, hvalue, if_neg (by omega), ← hlong, hhd, Nat.add_sub_cancel_left,
            UInt8.ofNat_toNat, UInt8.ofNat_toNat, cons_append, cons_append,
            take_append_drop]
    · by_cases hlen : pt.length < hd.toNat % 16
      · right
        intro n st
        simp only [readWithin, hlong, if_false, hlen, if_true]
      · left
        have hvalue : (pt.take (hd.toNat % 16)).length = hd.toNat % 16 := by
          rw [length_take]
          omega
        refine ⟨prev + hd.toNat / 16, pt.take (hd.toNat % 16), pt.drop (hd.toNat % 16),
          by omega, by omega, by omega, ?_⟩
        rw [encodeOne, hvalue, if_pos (by omega), hhd, UInt8.ofNat_toNat, cons_append,
          take_append_drop]

/-- **The options within a message** are encoded ones, and the handler sees what lies behind. -/
theorem readWithin_eq_some_iff {n : Nat} {st st' : σ} {pt rest : List UInt8} :
    readWithin handle n prev st pt = some (st', rest) ↔
      ∃ os, os.length = n ∧ Encodable prev os ∧ pt = encode prev os ++ rest ∧
        visit handle rest st os = some st' := by
  induction n generalizing prev st pt with
  | zero =>
    constructor
    · intro h
      obtain ⟨rfl, rfl⟩ := Prod.mk.inj (Option.some.inj h)
      exact ⟨[], rfl, trivial, rfl, rfl⟩
    · rintro ⟨os, hlen, -, rfl, hvisit⟩
      obtain rfl := eq_nil_of_length_eq_zero hlen
      obtain rfl := Option.some.inj hvisit
      rfl
  | succ n ih =>
    constructor
    · intro h
      rcases exists_encodeOne handle prev pt with
        ⟨opt, value, pt, hle, hdelta, hlen, rfl⟩ | hnone
      · rw [readWithin_encodeOne hle hdelta hlen] at h
        obtain ⟨st₁, hhandle, hrest⟩ := Option.bind_eq_some_iff.mp h
        obtain ⟨os, rfl, hos, rfl, hvisit⟩ := ih.mp hrest
        refine ⟨(opt, value) :: os, rfl, ⟨hle, hdelta, hlen, hos⟩, ?_, ?_⟩
        · rw [encode, append_assoc]
        · rw [visit, hhandle]
          exact hvisit
      · rw [hnone] at h
        cases h
    · rintro ⟨os, hlength, hos, rfl, hvisit⟩
      cases os with
      | nil => cases hlength
      | cons o os =>
        obtain ⟨hle, hdelta, hlen, hos⟩ := hos
        rw [encode, append_assoc, readWithin_encodeOne hle hdelta hlen]
        obtain ⟨st₁, hhandle, hvisit⟩ := Option.bind_eq_some_iff.mp hvisit
        rw [hhandle]
        exact ih.mpr ⟨os, Nat.succ.inj hlength, hos, rfl, hvisit⟩

theorem visit_append (rest : List UInt8) (prev : Nat) (st : σ) (os os' : List (Nat × List UInt8)) :
    visit handle rest st (os ++ os') =
      (visit handle (encode (lastOption prev os) os' ++ rest) st os).bind fun st =>
        visit handle rest st os' := by
  induction os generalizing prev st with
  | nil => rfl
  | cons o os ih =>
    obtain ⟨opt, value⟩ := o
    rw [cons_append, visit, visit, Option.bind_assoc, encode_append, append_assoc]
    exact congrArg _ (funext fun st => ih opt st)

/-- The handler gets through exactly if every option meets what one option needs. -/
theorem isSome_visit {meets : σ → Nat → List UInt8 → List UInt8 → Prop}
    (h : ∀ st opt value after, (handle st opt value.length (value ++ after)).isSome = true ↔ meets st opt value after)
    (rest : List UInt8) (st : σ) (os : List (Nat × List UInt8)) :
    (visit handle rest st os).isSome = true ↔ Along handle meets rest st os := by
  induction os generalizing st with
  | nil => exact iff_of_true rfl trivial
  | cons o os ih =>
    obtain ⟨opt, value⟩ := o
    rw [visit, Along, ← h]
    cases handle st opt value.length (value ++ (encode opt os ++ rest)) with
    | none => exact iff_of_false Bool.false_ne_true fun hmeets => Bool.false_ne_true hmeets.1
    | some st' =>
      rw [Option.bind_some, ih]
      constructor
      · intro halong
        refine ⟨rfl, fun st₁ hst₁ => ?_⟩
        rwa [← Option.some.inj hst₁]
      · exact fun halong => halong.2 st' rfl

end Ong.DeltaOptions
