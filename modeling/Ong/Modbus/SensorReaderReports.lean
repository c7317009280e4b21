import Ong.Modbus.SensorReader

/-!
# What the logging of a modbus point reports

A point is logged without loss when the last report always carries what the last read obtained, a
report is made only for a change or after the maximal interval, and two reads are more than the
minimal interval apart.  The cached value stands for the last report in the change detection, but
it is written on the unforced reads only, and a boolean point falls into the array access.

## Main results

* `Point_t.Sound.of_clockMs`: what one clock call preserves of a point under the condition
* `Point_t.condition_of_losesNoChange`: a call that breaks the condition loses a change
* `logging_iff`: along a run, the logging loses no change exactly when the condition holds
-/

namespace Ong.Modbus

open Option

/-- The last report of a log: when it was created, and the value it carries. -/
def lastReport : List PointRead → Option (Int × Xo)
  | [] => none
  | a :: log => match a.report with
    | some xo => some (a.time, xo)
    | none => lastReport log

/-- The logging contract of a point.  At each read: the last report carries the value the read
obtained; a report created at it differs from the one before, or comes more than `maxInterval`
after it; and all earlier reads are more than `minInterval` ago. -/
def LosesNoChange (minInterval maxInterval : Int) : List PointRead → Prop
  | [] => True
  | a :: log =>
    (lastReport (a :: log)).map Prod.snd = some a.value ∧
    (a.report.isSome → ∀ last ∈ lastReport log,
      last.2 ≠ a.value ∨ maxInterval < a.time - last.1) ∧
    (∀ b ∈ log, minInterval < a.time - b.time) ∧
    LosesNoChange minInterval maxInterval log

/-- Every logged point of the supervisor is logged without loss. -/
def Supervisor.LosesNoChange (s : Supervisor) : Prop :=
  ∀ i j k, ∀ pt ∈ pointAt s.networks i j k,
    Modbus.LosesNoChange pt.minInterval pt.maxInterval pt.log

/-- A point as `new_Point_t` and `setModbusType` leave it, whatever its intervals and its
attribute. -/
def Point_t.Fresh (pt : Point_t) : Prop :=
  pt.nextMaxInterval = 0 ∧ pt.nextRead = 0 ∧ pt.log = [] ∧
    pt.lastVal = ⟨pt.attr.modbusTypeID, false, []⟩

/-- No point has been read yet. -/
def Supervisor.Initial (s : Supervisor) : Prop :=
  ∀ i j k, ∀ pt ∈ pointAt s.networks i j k, pt.Fresh

/-- The cached value says of `value` the same as the last report does: it differs from both, or
from neither. -/
def Point_t.Tracks (pt : Point_t) (value : Xo) : Prop :=
  Xo.product pt.lastVal.arrayValue = value ↔ (lastReport pt.log).map Prod.snd = some value

/-- The condition on one point: when the call reads it and obtains a value, the point is an array,
and either the maximal interval has passed or the cached value tracks the last report. -/
def Point_t.LoggingCondition (pt : Point_t) (now : Int) (bus : Bus) : Prop :=
  pt.isInit = true → pt.nextRead < now → ∀ value ∈ pt.attr.obtained bus,
    pt.attr.modbusTypeID = .accessArray ∧ (pt.nextMaxInterval < now ∨ pt.Tracks value)

/-- The condition on a clock call. -/
def LoggingCondition (s : Supervisor) (e : Tic) : Prop :=
  ∀ i j k, scanned s.networks i j = true → ∀ pt ∈ pointAt s.networks i j k,
    pt.LoggingCondition e.now (e.bus i j k)

section Access

variable {bus : Bus} {attr : Attr_t} {array : List UInt16}

theorem obtained_array (h : attr.modbusTypeID = .accessArray) :
    attr.obtained bus = (attr.readArray bus.first).map .product := by
  simp [Attr_t.obtained, h]

theorem not_lt_of_readArray {slave : Slave} (h : attr.readArray slave = some array) :
    ¬maxModbusAccessSize < attr.nbRead := by
  intro hlt
  rw [Attr_t.readArray, if_pos hlt] at h
  exact some_ne_none _ h.symm

theorem access_forced (ht : attr.modbusTypeID = .accessArray)
    (h : attr.readArray bus.first = some array) :
    _modbusAccessRead bus attr none = (true, some (.product array), none) := by
  simp [_modbusAccessRead, ht, modbusAccessReadArray, h, not_lt_of_readArray h]

section

variable {val : Value_t} (ht : attr.modbusTypeID = .accessArray) (hv : val.typeID = .accessArray)
  (h : attr.readArray bus.first = some array)

include ht hv h

theorem access_same (heq : val.arrayValue = array) :
    _modbusAccessRead bus attr (some val) = (false, none, some val) := by
  have hc : val.arrayValueHasChanged array = false := by
    rw [← Bool.not_eq_true, Value_t.arrayValueHasChanged_iff hv]
    exact not_not.mpr heq
  simp [_modbusAccessRead, ht, modbusAccessReadArray, h, not_lt_of_readArray h, hc]

theorem access_changed (hne : val.arrayValue ≠ array) :
    _modbusAccessRead bus attr (some val) =
      (true, some (.product array), some (val.setArray array)) := by
  have hc : val.arrayValueHasChanged array = true :=
    (Value_t.arrayValueHasChanged_iff hv array).mpr hne
  simp [_modbusAccessRead, ht, modbusAccessReadArray, h, not_lt_of_readArray h, hc]

end

theorem access_bool {val : Option Value_t} (ht : attr.modbusTypeID = .accessBool) (b : Bool) :
    (if (_modbusAccessRead bus attr val).1 then (_modbusAccessRead bus attr val).2.1 else none) ≠
      some (.datBool b) := by
  simp only [_modbusAccessRead, ht]
  unfold modbusAccessReadArray
  split
  · simp
  · split
    · simp
    · split <;> simp

theorem access_nothing (h : attr.obtained bus = none) (val : Option Value_t) :
    (_modbusAccessRead bus attr val).1 = false ∧ (_modbusAccessRead bus attr val).2.2 = val := by
  unfold _modbusAccessRead
  unfold Attr_t.obtained at h
  cases ht : attr.modbusTypeID with
  | unsupported => exact ⟨rfl, rfl⟩
  | accessArray =>
    simp only [ht, map_eq_none_iff] at h
    simp only [modbusAccessReadArray, h]
    split <;> exact ⟨rfl, rfl⟩
  | accessBool =>
    simp only [ht, map_eq_none_iff] at h
    have hmap : attr.map = .notMapped := by
      unfold Attr_t.readBool at h
      split at h
      · assumption
      all_goals cases h
    have harray : attr.readArray bus.second = none := by simp [Attr_t.readArray, hmap]
    simp only [modbusAccessReadBool, modbusAccessReadArray, h, harray]
    split <;> exact ⟨rfl, rfl⟩

end Access

section Read

variable {pt : Point_t} {now : Int} {bus : Bus} {array : List UInt16}

theorem read_nothing (h : pt.attr.obtained bus = none) :
    pt.read now bus = { pt with nextRead := now + pt.minInterval } := by
  obtain ⟨h₁, h₂⟩ := access_nothing h (if pt.nextMaxInterval < now then none else some pt.lastVal)
  simp only [Point_t.read, h₁, h₂, Point_t.logged, h, Bool.false_eq_true, if_false,
    isSome_none]
  split <;> rfl

theorem read_forced (ht : pt.attr.modbusTypeID = .accessArray)
    (h : pt.attr.readArray bus.first = some array) (hmax : pt.nextMaxInterval < now) :
    pt.read now bus =
      { pt with
        nextMaxInterval := now + pt.maxInterval
        nextRead := now + pt.minInterval
        log := ⟨now, .product array, some (.product array)⟩ :: pt.log } := by
  simp [Point_t.read, hmax, access_forced ht h, Point_t.logged, obtained_array ht, h]

section

variable (ht : pt.attr.modbusTypeID = .accessArray) (hv : pt.lastVal.typeID = .accessArray)
  (h : pt.attr.readArray bus.first = some array) (hmax : ¬pt.nextMaxInterval < now)

include ht hv h hmax

theorem read_same (heq : pt.lastVal.arrayValue = array) :
    pt.read now bus =
      { pt with
        nextRead := now + pt.minInterval
        log := ⟨now, .product array, none⟩ :: pt.log } := by
  simp [Point_t.read, hmax, access_same ht hv h heq, Point_t.logged, obtained_array ht, h]

theorem read_changed (hne : pt.lastVal.arrayValue ≠ array) :
    pt.read now bus =
      { pt with
        lastVal := pt.lastVal.setArray array
        nextMaxInterval := now + pt.maxInterval
        nextRead := now + pt.minInterval
        log := ⟨now, .product array, some (.product array)⟩ :: pt.log } := by
  simp [Point_t.read, hmax, access_changed ht hv h hne, Point_t.logged, obtained_array ht, h]

end

theorem read_bool {b : Bool} (ht : pt.attr.modbusTypeID = .accessBool)
    (h : pt.attr.obtained bus = some (.datBool b)) :
    ∃ report, report ≠ some (Xo.datBool b) ∧
      (pt.read now bus).log = ⟨now, .datBool b, report⟩ :: pt.log := by
  refine ⟨_, @access_bool bus pt.attr
    (if pt.nextMaxInterval < now then none else some pt.lastVal) ht b, ?_⟩
  simp only [Point_t.read, Point_t.logged, h]

end Read

section Contract

variable {minInterval maxInterval : Int} {a : PointRead} {log : List PointRead}

theorem lastReport_cons_some {xo : Xo} (h : a.report = some xo) :
    lastReport (a :: log) = some (a.time, xo) := by
  simp [lastReport, h]

theorem lastReport_cons_none (h : a.report = none) : lastReport (a :: log) = lastReport log := by
  simp [lastReport, h]

theorem LosesNoChange.report (h : LosesNoChange minInterval maxInterval log)
    (hr : a.report = some a.value)
    (hdue : ∀ last ∈ lastReport log, last.2 ≠ a.value ∨ maxInterval < a.time - last.1)
    (hmin : ∀ b ∈ log, minInterval < a.time - b.time) :
    LosesNoChange minInterval maxInterval (a :: log) :=
  ⟨by rw [lastReport_cons_some hr]; rfl, fun _ => hdue, hmin, h⟩

theorem LosesNoChange.silent (h : LosesNoChange minInterval maxInterval log)
    (hr : a.report = none) (hlast : (lastReport log).map Prod.snd = some a.value)
    (hmin : ∀ b ∈ log, minInterval < a.time - b.time) :
    LosesNoChange minInterval maxInterval (a :: log) :=
  ⟨by rw [lastReport_cons_none hr]; exact hlast,
    fun hs => absurd hs (by simp [hr]), hmin, h⟩

end Contract

/-- What holds of a point as long as the condition does: its log keeps the contract, only an array
has been read, and the two deadlines are those its log gives. -/
structure Point_t.Sound (pt : Point_t) (clock : Int) : Prop where
  typeID : pt.attr.modbusTypeID = .accessArray → pt.lastVal.typeID = .accessArray
  array : pt.log ≠ [] → pt.attr.modbusTypeID = .accessArray
  kept : Modbus.LosesNoChange pt.minInterval pt.maxInterval pt.log
  past : ∀ a ∈ pt.log, a.time ≤ clock
  nextRead : ∀ a ∈ pt.log, a.time + pt.minInterval ≤ pt.nextRead
  nextMax : ∀ last ∈ lastReport pt.log, pt.nextMaxInterval = last.1 + pt.maxInterval

namespace Point_t

variable {pt : Point_t} {clock now : Int} {bus : Bus}

@[simp] theorem clockMs_minInterval : (pt.clockMs now bus).minInterval = pt.minInterval := by
  unfold Point_t.clockMs
  split <;> rfl

@[simp] theorem clockMs_maxInterval : (pt.clockMs now bus).maxInterval = pt.maxInterval := by
  unfold Point_t.clockMs
  split <;> rfl

theorem Fresh.sound (h : pt.Fresh) : pt.Sound clock := by
  obtain ⟨-, -, hlog, hval⟩ := h
  refine ⟨fun ht => by rw [hval]; exact ht, fun hne => absurd hlog hne, ?_, ?_, ?_, ?_⟩
  all_goals simp [hlog, Modbus.LosesNoChange, lastReport]

section

variable (h : pt.Sound clock)

include h

theorem Sound.mono (hc : clock ≤ now) : pt.Sound now :=
  { h with past := fun a ha => Int.le_trans (h.past a ha) hc }

theorem Sound.apart (hdue : pt.nextRead < now) : ∀ b ∈ pt.log, pt.minInterval < now - b.time := by
  intro b hb
  have := h.nextRead b hb
  omega

theorem Sound.elapsed {last : Int × Xo} (hlast : last ∈ lastReport pt.log) :
    pt.nextMaxInterval < now ↔ pt.maxInterval < now - last.1 := by
  have := h.nextMax last hlast
  omega

theorem Sound.logs (hc : clock ≤ now) (ht : pt.attr.modbusTypeID = .accessArray) {a : PointRead}
    (ha : a.time = now) {val : Value_t} (hv : val.typeID = .accessArray) {nextMax : Int}
    (hmax : ∀ last ∈ lastReport (a :: pt.log), nextMax = last.1 + pt.maxInterval)
    (hkept : Modbus.LosesNoChange pt.minInterval pt.maxInterval (a :: pt.log)) :
    Sound { pt with
      lastVal := val
      nextMaxInterval := nextMax
      nextRead := now + pt.minInterval
      log := a :: pt.log } now where
  typeID _ := hv
  array _ := ht
  kept := hkept
  past := by
    intro b hb
    rcases List.mem_cons.mp hb with rfl | hb
    · exact Int.le_of_eq ha
    · exact Int.le_trans (h.past b hb) hc
  nextRead := by
    intro b hb
    show b.time + pt.minInterval ≤ now + pt.minInterval
    rcases List.mem_cons.mp hb with rfl | hb
    · omega
    · have := h.past b hb
      omega
  nextMax := hmax

/-- **The step lemma**: a clock call on which the cached value tracks the last report keeps the
point sound. -/
theorem Sound.clockMs (hc : clock ≤ now) (hC : pt.LoggingCondition now bus) :
    (pt.clockMs now bus).Sound now := by
  unfold Point_t.clockMs
  split
  · rename_i hread
    obtain ⟨hinit, hdue⟩ : pt.isInit = true ∧ pt.nextRead < now := by simpa using hread
    cases hobt : pt.attr.obtained bus with
    | none =>
      rw [read_nothing hobt]
      exact {
        typeID := h.typeID
        array := h.array
        kept := h.kept
        past := fun a ha => Int.le_trans (h.past a ha) hc
        nextRead := fun a ha => by
          have := h.past a ha
          show a.time + pt.minInterval ≤ now + pt.minInterval
          omega
        nextMax := h.nextMax }
    | some value =>
      obtain ⟨ht, htrack⟩ := hC hinit hdue value hobt
      rw [obtained_array ht] at hobt
      obtain ⟨array, harray, rfl⟩ := map_eq_some_iff.mp hobt
      have hv := h.typeID ht
      have hmin := h.apart hdue
      by_cases hmax : pt.nextMaxInterval < now
      · rw [read_forced ht harray hmax]
        have hkept := LosesNoChange.report h.kept
            (a := ⟨now, .product array, some (.product array)⟩) rfl
          (fun last hlast => Or.inr ((h.elapsed hlast).mp hmax)) hmin
        refine h.logs hc ht rfl hv ?_ hkept
        rintro last ⟨⟩
        rfl
      · have htrack := htrack.resolve_left hmax
        by_cases heq : pt.lastVal.arrayValue = array
        · rw [read_same ht hv harray hmax heq]
          have hlast := htrack.mp (congrArg Xo.product heq)
          refine h.logs hc ht rfl hv ?_ (LosesNoChange.silent h.kept rfl hlast hmin)
          exact h.nextMax
        · rw [read_changed ht hv harray hmax heq]
          have hdiffer : ∀ last ∈ lastReport pt.log, last.2 ≠ Xo.product array := by
            intro last hlast hval
            have hcached := htrack.mpr (by rw [mem_def.mp hlast, map_some, hval])
            exact heq (Xo.product.inj hcached)
          have hkept := LosesNoChange.report h.kept
            (a := ⟨now, .product array, some (.product array)⟩) rfl
            (fun last hlast => Or.inl (hdiffer last hlast)) hmin
          have hset : (pt.lastVal.setArray array).typeID = .accessArray := hv
          refine h.logs hc ht rfl hset ?_ hkept
          rintro last ⟨⟩
          rfl
  · exact h.mono hc

/-- **The converse**: a clock call that breaks the condition leaves a log that has lost a change,
or reported none. -/
theorem condition_of_losesNoChange
    (hlog : Modbus.LosesNoChange pt.minInterval pt.maxInterval (pt.clockMs now bus).log) :
    pt.LoggingCondition now bus := by
  intro hinit hdue value hobt
  have hclock : pt.clockMs now bus = pt.read now bus := by
    exact if_pos (by simp [hinit, hdue])
  rw [hclock] at hlog
  cases ht : pt.attr.modbusTypeID with
  | unsupported => simp [Attr_t.obtained, ht] at hobt
  | accessBool =>
    have hnil : pt.log = [] := by
      by_contra hne
      rw [h.array hne] at ht
      cases ht
    obtain ⟨b, -, rfl⟩ : ∃ b, pt.attr.readBool bus.first = some b ∧ Xo.datBool b = value := by
      simpa [Attr_t.obtained, ht] using hobt
    obtain ⟨report, hreport, hread⟩ := @read_bool _ now _ _ ht hobt
    rw [hread, hnil] at hlog
    have hcarried := hlog.1
    cases report with
    | none => cases hcarried
    | some xo => exact absurd hcarried hreport
  | accessArray =>
    refine ⟨rfl, or_iff_not_imp_left.mpr fun hmax => ?_⟩
    rw [obtained_array ht] at hobt
    obtain ⟨array, harray, rfl⟩ := map_eq_some_iff.mp hobt
    have hv := h.typeID ht
    by_cases heq : pt.lastVal.arrayValue = array
    · rw [read_same ht hv harray hmax heq] at hlog
      exact iff_of_true (congrArg Xo.product heq) hlog.1
    · rw [read_changed ht hv harray hmax heq] at hlog
      refine iff_of_false (fun hcached => heq (Xo.product.inj hcached)) fun hsame => ?_
      obtain ⟨last, hlast, hval⟩ := map_eq_some_iff.mp hsame
      rcases hlog.2.1 rfl last hlast with hne | hlate
      · exact hne hval
      · exact hmax ((h.elapsed hlast).mpr hlate)

end

end Point_t

section Runs

variable {s t : Supervisor} {e : Tic}

/-- Every point of the supervisor is sound at the clock of its last call. -/
def Supervisor.Sound (s : Supervisor) : Prop :=
  ∀ i j k, ∀ pt ∈ pointAt s.networks i j k, pt.Sound s.clock

theorem step_eq_some (h : step s e = some t) :
    s.clock ≤ e.now ∧ t = ⟨e.now, modbusReaderClockMs e.now e.bus s.networks⟩ := by
  unfold step at h
  split at h
  · exact ⟨‹_›, (Option.some.inj h).symm⟩
  · cases h

theorem Supervisor.Sound.step (h : s.Sound) (hC : LoggingCondition s e)
    (hs : Modbus.step s e = some t) : t.Sound := by
  obtain ⟨hc, rfl⟩ := step_eq_some hs
  intro i j k pt hpt
  rw [mem_def, pointAt_modbusReaderClockMs] at hpt
  obtain ⟨pt, hat, rfl⟩ := map_eq_some_iff.mp hpt
  by_cases hscan : scanned s.networks i j = true
  · rw [if_pos hscan]
    exact (h i j k pt hat).clockMs hc (hC i j k hscan pt hat)
  · rw [if_neg hscan]
    exact (h i j k pt hat).mono hc

theorem Supervisor.Sound.condition (h : s.Sound) (hs : Modbus.step s e = some t)
    (hP : t.LosesNoChange) : LoggingCondition s e := by
  obtain ⟨hc, rfl⟩ := step_eq_some hs
  intro i j k hscan pt hat
  have hpt := hP i j k (pt.clockMs e.now (e.bus i j k)) (by
    rw [mem_def, pointAt_modbusReaderClockMs, hat, map_some, if_pos hscan])
  refine Point_t.condition_of_losesNoChange (h i j k pt hat) ?_
  simpa using hpt

/-- **Modbus logging**: along every run of clock calls from points not yet read, whatever the
registers hold at each read, no change is lost, no needless report is made and the reads keep
their distance, exactly when every read that obtains a value is one of an array point whose
maximal interval has passed or whose cached value tracks its last report. -/
theorem logging_iff (s : Supervisor) (hs : s.Initial) (es : List Tic) :
    Run.Visits step Supervisor.LosesNoChange s es ↔ Run.Along step LoggingCondition s es :=
  Run.visits_iff_along (I := Supervisor.Sound) (fun _ h i j k pt hpt => (h i j k pt hpt).kept)
    (fun _ _ _ h hC ht => h.step hC ht) (fun _ _ _ h ht hP => h.condition ht hP)
    fun i j k pt hpt => (hs i j k pt hpt).sound

/-- A slave whose holding registers, and whose coils, all hold the same. -/
def uniformBus (register : UInt16) (coil : Bool) : Nat → Nat → Nat → Bus :=
  fun _ _ _ =>
    let slave : Slave := ⟨fun _ => coil, fun _ => coil, fun _ => register, fun _ => register⟩
    ⟨slave, slave⟩

/-- A supervisor with one point, logged every 5 to 30 seconds. -/
def onePoint (typeID : ModbusTypeID) (map : RegisterMap) : Supervisor :=
  ⟨0, [⟨true, [⟨true, [⟨true, 0, 0, 5, 30, ⟨typeID, false, []⟩, ⟨typeID, 1, 2, 0, map⟩, []⟩]⟩]⟩]⟩

theorem onePoint_initial (typeID : ModbusTypeID) (map : RegisterMap) :
    (onePoint typeID map).Initial := by
  intro i j k pt hpt
  match i, j, k, hpt with
  | 0, 0, 0, rfl => exact ⟨rfl, rfl, rfl, rfl⟩

/-- The registers of an array point go from 5 to 7, back to 5 when the maximal interval has passed,
and to 7 again. -/
def forgottenChange : List Tic :=
  [⟨1, uniformBus 5 true⟩, ⟨10, uniformBus 7 true⟩, ⟨50, uniformBus 5 true⟩,
    ⟨60, uniformBus 7 true⟩]

/-- The report forced at 50 is not cached, so the 7 read at 60 passes for no change; and a boolean
point never reports its boolean. -/
theorem logging_loses :
    ¬Run.Visits step Supervisor.LosesNoChange (onePoint .accessArray .holding) forgottenChange ∧
    ¬Run.Visits step Supervisor.LosesNoChange (onePoint .accessBool .coils)
      [⟨1, uniformBus 5 true⟩] := by
  constructor
  · intro h
    have hend := Run.visits_exec h rfl 0 0 0 _ rfl
    exact absurd hend.1 (by decide)
  · intro h
    have hend := Run.visits_exec h rfl 0 0 0 _ rfl
    exact absurd hend.1 (by decide)

/-- The contract on the run of `forgottenChange`, read from the condition. -/
theorem logging_forgottenChange :
    Run.Visits step Supervisor.LosesNoChange (onePoint .accessArray .holding) forgottenChange ↔
      Run.Along step LoggingCondition (onePoint .accessArray .holding) forgottenChange :=
  logging_iff _ (onePoint_initial _ _) _

end Runs

end Ong.Modbus
