import Ong.Modbus.SensorReader

/-!
# The completion of modbus requests

A request from the network ends with one call of `diaIncomingRequestCompletion`.  The function that
reads an attribute serves three callers, which it tells apart by two pointers: the network gives
none, the logging one for an object and the interface one for a descriptor.

## Main results

* `rightly_iff_answered`
-/

namespace Ong.Modbus

open Option

/-- The contexts of a device and of its network, where they are connected. -/
structure Connection where
  serial : Bool
  modbusCtx : Bool
  networkCtx : Bool

/-- `DeviceModbusDisconnection` -/
def Connection.disconnection (device : Connection) : Connection :=
  if device.serial then { device with networkCtx := false } else { device with modbusCtx := false }

/-- What an access was given and what it leaves: the status codes of the completions, in order, what
the two pointers point to, if they are not NULL, and the cached value. -/
structure Call where
  completed : List Nat
  descriptor : Option (Option String)
  xo : Option (Option Xo)
  lastVal : Option Value_t
  device : Connection

/-- What the calls of one access give.  A transaction that fails and a text that cannot be written
are `none` and `false`. -/
structure Outcomes where
  readBits : Option UInt8
  readRegister : Option UInt16
  readRegisters : Option (List UInt16)
  writeBit : Bool
  writeRegister : Bool
  template : Bool
  product : Bool
  written : Xo → Bool

namespace Attr_t

/-- The value of the transaction of a boolean access, when the map has one. -/
def boolTransaction (attr : Attr_t) (o : Outcomes) : Option (Option UInt16) :=
  match attr.map with
  | .discretes | .coils => some (o.readBits.map (·.toUInt16))
  | .input | .holding => some (o.readRegister.map (· &&& attr.mask))
  | .notMapped => none

/-- The registers of the transaction of an array access, when the map has one. -/
def arrayTransaction (attr : Attr_t) (o : Outcomes) : Option (Option (List UInt16)) :=
  match attr.map with
  | .input | .holding => some o.readRegisters
  | _ => none

end Attr_t

namespace Call

/-- `diaIncomingRequestCompletion` -/
def complete (c : Call) (code : Nat) : Call :=
  { c with completed := c.completed ++ [code] }

/-- An error is a completion for a caller without `xo`, and `*xo = NULL` for the others. -/
def refuse (c : Call) (code : Nat) : Call :=
  if c.xo = none then c.complete code else { c with xo := some none }

/-- `sendAnswerFromXo`; `none` where it reads the text of a NULL buffer. -/
def sendAnswerFromXo (o : Outcomes) (c : Call) (xo : Xo) : Option Call :=
  -- the test is `w != NULL`: an object that was written is answered as an error
  if o.written xo then some (c.complete 500) else none

def modbusAccessReadBool (o : Outcomes) (attr : Attr_t) (c : Call) : Option (Int × Call) :=
  match attr.boolTransaction o with
  | none => some (1, c.refuse 501)
  | some none => some (2, c.refuse 503)
  | some (some value) =>
    match c.descriptor with
    | some _ =>
      some (1, { c with descriptor := some (some (if value != 0 then "true" else "false")) })
    | none =>
      if !o.template then some (1, if c.xo = none then c.complete 500 else c)
      else
        match c.xo with
        | none => (c.sendAnswerFromXo o (.datBool (value != 0))).map (1, ·)
        | some _ =>
          if c.lastVal.any fun v => !v.boolValueHasChanged (value != 0) then some (1, c)
          else
            some (0, { c with
              xo := some (some (.datBool (value != 0)))
              lastVal := c.lastVal.map (·.setBool (value != 0)) })

def modbusAccessReadArray (o : Outcomes) (attr : Attr_t) (c : Call) : Option (Int × Call) :=
  if maxModbusAccessSize < attr.nbRead then some (1, c)
  else
    match attr.arrayTransaction o with
    | none => some (1, c.refuse 501)
    | some none => some (2, c.refuse 503)
    | some (some array) =>
      match c.descriptor with
      | some _ => some (1, { c with descriptor := some (some "unsupported") })
      | none =>
        match c.xo with
        | none =>
          if !o.product then some (1, c.complete 500)
          else (c.sendAnswerFromXo o (.product array)).map (1, ·)
        | some _ =>
          if c.lastVal.any fun v => !v.arrayValueHasChanged array then some (1, c)
          else if !o.product then some (1, c)
          else
            some (0, { c with
              xo := some (some (.product array))
              lastVal := c.lastVal.map (·.setArray array) })

/-- The first `switch` of `_modbusAccessRead`. -/
def dispatch (o : Outcomes) (attr : Attr_t) (c : Call) : Option (Int × Call) :=
  match attr.modbusTypeID with
  | .accessBool =>
    -- the case has no `break`
    (c.modbusAccessReadBool o attr).bind fun r => r.2.modbusAccessReadArray o attr
  | .accessArray => c.modbusAccessReadArray o attr
  | .unsupported => some (-1, c)

/-- The second one, on the code. -/
def conclude (rc : Int) (c : Call) : Bool × Call :=
  if rc = 0 then (true, c)
  else if rc = 1 then (false, c)
  else if rc = 2 then (false, { c with device := c.device.disconnection })
  else (false, c.refuse 501)

def _modbusAccessRead (o : Outcomes) (attr : Attr_t) (c : Call) : Option (Bool × Call) :=
  if !(c.device.modbusCtx || c.device.networkCtx) then some (false, c.refuse 503)
  else (c.dispatch o attr).map fun r => conclude r.1 r.2

/-- `modbusAccessWriteBool`; the value that is written is the slave's matter. -/
def modbusAccessWriteBool (o : Outcomes) (attr : Attr_t) (c : Call) : Int × Call :=
  match attr.map with
  | .coils => if !o.writeBit then (2, c.complete 503) else (0, c.complete 204)
  | .holding =>
    if o.readRegister.isNone then (2, c.complete 503)
    else if !o.writeRegister then (2, c.complete 503)
    else (0, c.complete 204)
  | _ => (1, c.complete 501)

/-- `modbusAccessWrite`, for the `val` of the request. -/
def modbusAccessWrite (o : Outcomes) (attr : Attr_t) (val : Option Bool) (c : Call) : Call :=
  if !(c.device.modbusCtx || c.device.networkCtx) then c.complete 503
  else if attr.modbusTypeID = .accessBool then
    if val.isNone then c.complete 400
    else
      let (rc, c) := c.modbusAccessWriteBool o attr
      if rc = 2 then { c with device := c.device.disconnection } else c
  else c.complete 501

/-- What the caller's variable holds in the end: it was NULL. -/
def Produced (c : Call) : Prop :=
  (∃ xo, c.xo = some (some xo)) ∨ ∃ text, c.descriptor = some (some text)

end Call

/-- Who calls: the network, the reader of the logged points with its cached value, and the interface
of the application for a descriptor. -/
inductive Request
  | read
  | write (val : Option Bool)
  | log (lastVal : Option Value_t)
  | describe

/-- The pointers of a caller. -/
def Request.call (device : Connection) : Request → Call
  | .read | .write _ => ⟨[], none, none, none, device⟩
  | .log lastVal => ⟨[], none, some none, lastVal, device⟩
  | .describe => ⟨[], some none, none, none, device⟩

/-- A request of the network is completed once; an internal read completes nothing, and returns true
exactly when it has produced an object. -/
def Rightly (o : Outcomes) (device : Connection) (attr : Attr_t) (r : Request) : Prop :=
  match r with
  | .read =>
    ∃ b c code, (r.call device)._modbusAccessRead o attr = some (b, c) ∧ c.completed = [code]
  | .write val => ∃ code, ((r.call device).modbusAccessWrite o attr val).completed = [code]
  | .log _ | .describe =>
    ∃ b c, (r.call device)._modbusAccessRead o attr = some (b, c) ∧ c.completed = [] ∧
      (b = true ↔ c.Produced)

/-- What a boolean access sends can be written. -/
def BoolWritten (o : Outcomes) (attr : Attr_t) : Prop :=
  ∀ value, attr.boolTransaction o = some (some value) → o.template = true →
    o.written (.datBool (value != 0)) = true

/-- What an array access sends can be written. -/
def ArrayWritten (o : Outcomes) (attr : Attr_t) : Prop :=
  ∀ array, attr.arrayTransaction o = some (some array) → o.product = true →
    o.written (.product array) = true

/-- The boolean access of a logged point hands an object back. -/
def BoolReported (o : Outcomes) (attr : Attr_t) (lastVal : Option Value_t) : Prop :=
  o.template = true ∧ ∃ value, attr.boolTransaction o = some (some value) ∧
    (lastVal.any fun v => !v.boolValueHasChanged (value != 0)) = false

/-- The array access behind it neither clears that object nor counts as a success. -/
def ArrayIgnored (o : Outcomes) (attr : Attr_t) (lastVal : Option Value_t) : Prop :=
  maxModbusAccessSize < attr.nbRead ∨
    (∃ array, attr.arrayTransaction o = some (some array)) ∧
      (lastVal.isSome = true ∨ o.product = false)

/-- The accesses that the missing `break`, the silent refusal of a size, the inverted test of
`sendAnswerFromXo` and the completions of a descriptor leave alone. -/
def Answered (o : Outcomes) (device : Connection) (attr : Attr_t) : Request → Prop
  | .read =>
    (device.modbusCtx || device.networkCtx) = true →
      match attr.modbusTypeID with
      | .accessBool => maxModbusAccessSize < attr.nbRead ∧ BoolWritten o attr
      | .accessArray => attr.nbRead ≤ maxModbusAccessSize ∧ ArrayWritten o attr
      | .unsupported => True
  | .write _ => True
  | .log lastVal =>
    (device.modbusCtx || device.networkCtx) = true → attr.modbusTypeID = .accessBool →
      ¬(BoolReported o attr lastVal ∧ ArrayIgnored o attr lastVal)
  | .describe =>
    (device.modbusCtx || device.networkCtx) = true ∧ attr.modbusTypeID = .accessArray ∧
      maxModbusAccessSize < attr.nbRead

variable {o : Outcomes} {device : Connection} {attr : Attr_t} {c d : Call} {rc : Int} {b : Bool}

namespace Call

/-! ### The network -/

theorem refuse_of_none (h : c.xo = none) (code : Nat) : c.refuse code = c.complete code :=
  if_pos h

theorem refuse_of_some {x : Option Xo} (h : c.xo = some x) (code : Nat) :
    c.refuse code = { c with xo := some none } :=
  if_neg (by rw [h]; exact some_ne_none x)

theorem sendAnswerFromXo_pos {xo : Xo} (h : o.written xo = true) :
    c.sendAnswerFromXo o xo = some (c.complete 500) :=
  if_pos h

theorem sendAnswerFromXo_neg {xo : Xo} (h : ¬o.written xo = true) :
    c.sendAnswerFromXo o xo = none :=
  if_neg h

section

variable (hxo : c.xo = none) (hdescriptor : c.descriptor = none)

include hxo hdescriptor

theorem modbusAccessReadBool_network (h : BoolWritten o attr) : ∃ rc code, (rc = 1 ∨ rc = 2) ∧
      c.modbusAccessReadBool o attr = some (rc, c.complete code) := by
  simp only [modbusAccessReadBool, refuse_of_none hxo]
  cases htransaction : attr.boolTransaction o with
  | none => exact ⟨1, 501, .inl rfl, rfl⟩
  | some result =>
    cases result with
    | none => exact ⟨2, 503, .inr rfl, rfl⟩
    | some value =>
      simp only [hdescriptor, hxo]
      cases htemplate : o.template
      · exact ⟨1, 500, .inl rfl, rfl⟩
      · rw [sendAnswerFromXo_pos (h value htransaction htemplate)]
        exact ⟨1, 500, .inl rfl, rfl⟩

theorem modbusAccessReadBool_unwritten (h : ¬BoolWritten o attr) :
    c.modbusAccessReadBool o attr = none := by
  simp only [BoolWritten, not_forall] at h
  obtain ⟨value, htransaction, htemplate, hwritten⟩ := h
  simp only [modbusAccessReadBool, htransaction, hdescriptor, hxo, htemplate,
    sendAnswerFromXo_neg hwritten]
  rfl

theorem modbusAccessReadArray_network (hsize : attr.nbRead ≤ maxModbusAccessSize)
    (h : ArrayWritten o attr) :
    ∃ rc code, (rc = 1 ∨ rc = 2) ∧
      c.modbusAccessReadArray o attr = some (rc, c.complete code) := by
  simp only [modbusAccessReadArray, if_neg (Nat.not_lt.mpr hsize), refuse_of_none hxo]
  cases htransaction : attr.arrayTransaction o with
  | none => exact ⟨1, 501, .inl rfl, rfl⟩
  | some result =>
    cases result with
    | none => exact ⟨2, 503, .inr rfl, rfl⟩
    | some array =>
      simp only [hdescriptor, hxo]
      cases hproduct : o.product
      · exact ⟨1, 500, .inl rfl, rfl⟩
      · rw [sendAnswerFromXo_pos (h array htransaction hproduct)]
        exact ⟨1, 500, .inl rfl, rfl⟩

theorem modbusAccessReadArray_unwritten (hsize : attr.nbRead ≤ maxModbusAccessSize)
    (h : ¬ArrayWritten o attr) : c.modbusAccessReadArray o attr = none := by
  simp only [ArrayWritten, not_forall] at h
  obtain ⟨array, htransaction, hproduct, hwritten⟩ := h
  simp only [modbusAccessReadArray, if_neg (Nat.not_lt.mpr hsize), htransaction, hdescriptor, hxo,
    hproduct, sendAnswerFromXo_neg hwritten]
  rfl

end

theorem modbusAccessReadArray_oversized (h : maxModbusAccessSize < attr.nbRead) :
    c.modbusAccessReadArray o attr = some (1, c) :=
  if_pos h

theorem conclude_completed (h : rc = 0 ∨ rc = 1 ∨ rc = 2) :
    (conclude rc c).2.completed = c.completed := by
  rcases h with rfl | rfl | rfl <;> rfl

theorem conclude_produced (h : rc = 0 ∨ rc = 1 ∨ rc = 2) :
    ((conclude rc c).1 = true ↔ rc = 0) ∧ ((conclude rc c).2.Produced ↔ c.Produced) := by
  rcases h with rfl | rfl | rfl
  · exact ⟨iff_of_true rfl rfl, Iff.rfl⟩
  · exact ⟨iff_of_false Bool.false_ne_true (by omega), Iff.rfl⟩
  · exact ⟨iff_of_false Bool.false_ne_true (by omega), Iff.rfl⟩

theorem read_network_iff (hxo : c.xo = none) (hdescriptor : c.descriptor = none)
    (hcompleted : c.completed = []) (hctx : (c.device.modbusCtx || c.device.networkCtx) = true) :
    (∃ b d code, c._modbusAccessRead o attr = some (b, d) ∧ d.completed = [code]) ↔
      match attr.modbusTypeID with
      | .accessBool => maxModbusAccessSize < attr.nbRead ∧ BoolWritten o attr
      | .accessArray => attr.nbRead ≤ maxModbusAccessSize ∧ ArrayWritten o attr
      | .unsupported => True := by
  simp only [_modbusAccessRead, hctx, Bool.not_true, Bool.false_eq_true, if_false]
  cases htype : attr.modbusTypeID with
  | accessBool =>
    simp only [dispatch, htype]
    by_cases hbool : BoolWritten o attr
    · obtain ⟨rc, code, -, heq⟩ := modbusAccessReadBool_network hxo hdescriptor hbool
      rw [heq, bind_some]
      have hfirst : (c.complete code).completed = [code] := by
        rw [complete, hcompleted, List.nil_append]
      by_cases hsize : maxModbusAccessSize < attr.nbRead
      · rw [modbusAccessReadArray_oversized hsize, map_some]
        exact iff_of_true ⟨_, _, code, rfl, hfirst⟩ ⟨hsize, hbool⟩
      · refine iff_of_false ?_ fun h => hsize h.1
        rintro ⟨b, d, code', hd, hcode⟩
        by_cases harray : ArrayWritten o attr
        · obtain ⟨rc', code'', hrc, heq'⟩ := modbusAccessReadArray_network
            (c := c.complete code) hxo hdescriptor (Nat.le_of_not_lt hsize) harray
          rw [heq', map_some, Option.some.injEq] at hd
          have hend : (conclude rc' ((c.complete code).complete code'')).2 = d :=
            congrArg Prod.snd hd
          rw [← hend, conclude_completed (.inr hrc), complete, hfirst] at hcode
          cases hcode
        · rw [modbusAccessReadArray_unwritten (c := c.complete code) hxo hdescriptor
            (Nat.le_of_not_lt hsize) harray] at hd
          cases hd
    · rw [modbusAccessReadBool_unwritten hxo hdescriptor hbool]
      refine iff_of_false ?_ fun h => hbool h.2
      rintro ⟨b, d, code, hd, -⟩
      cases hd
  | accessArray =>
    simp only [dispatch, htype]
    by_cases hsize : maxModbusAccessSize < attr.nbRead
    · rw [modbusAccessReadArray_oversized hsize, map_some]
      refine iff_of_false ?_ fun h => Nat.not_lt.mpr h.1 hsize
      rintro ⟨b, d, code, hd, hcode⟩
      obtain ⟨-, rfl⟩ := Prod.mk.inj (Option.some.inj hd)
      rw [hcompleted] at hcode
      cases hcode
    · by_cases harray : ArrayWritten o attr
      · obtain ⟨rc, code, hrc, heq⟩ := modbusAccessReadArray_network hxo hdescriptor
          (Nat.le_of_not_lt hsize) harray
        rw [heq, map_some]
        refine iff_of_true ⟨(conclude rc (c.complete code)).1, (conclude rc (c.complete code)).2,
          code, rfl, ?_⟩ ⟨Nat.le_of_not_lt hsize, harray⟩
        rw [conclude_completed (.inr hrc), complete, hcompleted, List.nil_append]
      · rw [modbusAccessReadArray_unwritten hxo hdescriptor (Nat.le_of_not_lt hsize) harray]
        refine iff_of_false ?_ fun h => harray h.2
        rintro ⟨b, d, code, hd, -⟩
        cases hd
  | unsupported =>
    refine iff_of_true ⟨false, c.complete 501, 501, ?_, ?_⟩ trivial
    · simp only [dispatch, htype, map_some]
      rw [← refuse_of_none hxo]
      rfl
    · rw [complete, hcompleted, List.nil_append]

/-! ### The reader of the logged points -/

theorem modbusAccessReadBool_logged (attr : Attr_t) (hxo : c.xo = some none)
    (hdescriptor : c.descriptor = none) :
    ∃ rc d, c.modbusAccessReadBool o attr = some (rc, d) ∧ d.completed = c.completed ∧
      d.descriptor = none ∧
      ((BoolReported o attr c.lastVal ∧ (∃ xo, d.xo = some (some xo)) ∧
          d.lastVal.isSome = c.lastVal.isSome ∧
          ∀ v, d.lastVal = some v → v.typeID = .accessBool) ∨
        ¬BoolReported o attr c.lastVal ∧ d.xo = some none) := by
  simp only [modbusAccessReadBool, refuse_of_some hxo, BoolReported]
  cases htransaction : attr.boolTransaction o with
  | none => exact ⟨1, _, rfl, rfl, hdescriptor, .inr ⟨by simp, rfl⟩⟩
  | some result =>
    cases result with
    | none => exact ⟨2, _, rfl, rfl, hdescriptor, .inr ⟨by simp, rfl⟩⟩
    | some value =>
      simp only [hdescriptor, hxo, reduceCtorEq, if_false]
      cases htemplate : o.template
      · exact ⟨1, c, rfl, rfl, hdescriptor, .inr ⟨by simp, hxo⟩⟩
      · cases hchanged : c.lastVal.any fun v => !v.boolValueHasChanged (value != 0)
        · refine ⟨0, _, rfl, rfl, rfl, .inl ⟨⟨rfl, value, rfl, hchanged⟩, ⟨_, rfl⟩,
            isSome_map, fun v hv => ?_⟩⟩
          obtain ⟨v', -, rfl⟩ := map_eq_some_iff.mp hv
          rfl
        · refine ⟨1, c, rfl, rfl, hdescriptor, .inr ⟨?_, hxo⟩⟩
          rintro ⟨-, value', heq, hunchanged⟩
          obtain rfl := Option.some.inj (Option.some.inj heq)
          rw [hchanged] at hunchanged
          cases hunchanged

theorem modbusAccessReadArray_logged (attr : Attr_t) {x : Option Xo} (hxo : c.xo = some x)
    (hdescriptor : c.descriptor = none) :
    ∃ rc d, c.modbusAccessReadArray o attr = some (rc, d) ∧ d.completed = c.completed ∧
      d.descriptor = none ∧
      ((rc = 0 ∧ (∃ xo, d.xo = some (some xo)) ∧ attr.nbRead ≤ maxModbusAccessSize ∧
          o.product = true ∧ ∃ array, attr.arrayTransaction o = some (some array) ∧
            (c.lastVal.any fun v => !v.arrayValueHasChanged array) = false) ∨
        (rc = 1 ∧ d.xo = some x ∧ (maxModbusAccessSize < attr.nbRead ∨
          ∃ array, attr.arrayTransaction o = some (some array) ∧
            ((c.lastVal.any fun v => !v.arrayValueHasChanged array) = true ∨
              o.product = false))) ∨
        ((rc = 1 ∨ rc = 2) ∧ d.xo = some none ∧ attr.nbRead ≤ maxModbusAccessSize ∧
          ∀ array, attr.arrayTransaction o ≠ some (some array))) := by
  by_cases hsize : maxModbusAccessSize < attr.nbRead
  · exact ⟨1, c, modbusAccessReadArray_oversized hsize, rfl, hdescriptor,
      .inr (.inl ⟨rfl, hxo, .inl hsize⟩)⟩
  · have hle := Nat.le_of_not_lt hsize
    simp only [modbusAccessReadArray, if_neg hsize, refuse_of_some hxo]
    cases htransaction : attr.arrayTransaction o with
    | none =>
      exact ⟨1, _, rfl, rfl, hdescriptor, .inr (.inr ⟨.inl rfl, rfl, hle, by simp⟩)⟩
    | some result =>
      cases result with
      | none =>
        exact ⟨2, _, rfl, rfl, hdescriptor, .inr (.inr ⟨.inr rfl, rfl, hle, by simp⟩)⟩
      | some array =>
        simp only [hdescriptor, hxo]
        cases hchanged : c.lastVal.any fun v => !v.arrayValueHasChanged array
        · cases hproduct : o.product
          · exact ⟨1, c, rfl, rfl, hdescriptor,
              .inr (.inl ⟨rfl, hxo, .inr ⟨array, rfl, .inr rfl⟩⟩)⟩
          · exact ⟨0, _, rfl, rfl, rfl,
              .inl ⟨rfl, ⟨_, rfl⟩, hle, rfl, array, rfl, hchanged⟩⟩
        · exact ⟨1, c, rfl, rfl, hdescriptor,
            .inr (.inl ⟨rfl, hxo, .inr ⟨array, rfl, .inl hchanged⟩⟩)⟩

theorem produced_iff (h : c.descriptor = none) : c.Produced ↔ ∃ xo, c.xo = some (some xo) := by
  rw [Produced, h, or_iff_left]
  rintro ⟨text, htext⟩
  cases htext

theorem not_produced (h : c.descriptor = none) (hxo : c.xo = some none) : ¬c.Produced := by
  rw [produced_iff h, hxo]
  rintro ⟨xo, heq⟩
  cases heq

theorem modbusAccessReadArray_produced (attr : Attr_t) (hxo : c.xo = some none)
    (hdescriptor : c.descriptor = none) :
    ∃ rc d, c.modbusAccessReadArray o attr = some (rc, d) ∧ d.completed = c.completed ∧
      (rc = 0 ∨ rc = 1 ∨ rc = 2) ∧ (rc = 0 ↔ d.Produced) := by
  obtain ⟨rc, d, heq, hcompleted, hnone, hcases⟩ :=
    modbusAccessReadArray_logged (o := o) attr hxo hdescriptor
  refine ⟨rc, d, heq, hcompleted, ?_⟩
  rcases hcases with ⟨rfl, hproduced, -⟩ | ⟨rfl, hkept, -⟩ | ⟨hrc, hcleared, -⟩
  · exact ⟨.inl rfl, iff_of_true rfl ((produced_iff hnone).mpr hproduced)⟩
  · exact ⟨.inr (.inl rfl), iff_of_false (by omega) (not_produced hnone hkept)⟩
  · exact ⟨.inr hrc, iff_of_false (by omega) (not_produced hnone hcleared)⟩

theorem modbusAccessReadArray_behind (attr : Attr_t) {x : Xo} (hxo : c.xo = some (some x))
    (hdescriptor : c.descriptor = none) (hbool : ∀ v, c.lastVal = some v → v.typeID = .accessBool) :
    ∃ rc d, c.modbusAccessReadArray o attr = some (rc, d) ∧ d.completed = c.completed ∧
      (rc = 0 ∨ rc = 1 ∨ rc = 2) ∧ ((rc = 0 ↔ d.Produced) ↔ ¬ArrayIgnored o attr c.lastVal) := by
  obtain ⟨rc, d, heq, hcompleted, hnone, hcases⟩ :=
    modbusAccessReadArray_logged (o := o) attr hxo hdescriptor
  refine ⟨rc, d, heq, hcompleted, ?_⟩
  rw [produced_iff hnone]
  rcases hcases with ⟨rfl, hproduced, hle, hproduct, array, htransaction, hchanged⟩ |
    ⟨rfl, hkept, hignored⟩ | ⟨hrc, hcleared, hle, hfailed⟩
  · refine ⟨.inl rfl, iff_of_true (iff_of_true rfl hproduced) ?_⟩
    rintro (hsize | ⟨-, hsome | hproduct'⟩)
    · exact Nat.not_lt.mpr hle hsize
    · obtain ⟨v, hv⟩ := isSome_iff_exists.mp hsome
      have hunchanged : v.arrayValueHasChanged array = false := by
        rw [Value_t.arrayValueHasChanged, hbool v hv]
        rfl
      rw [hv, any_some, hunchanged] at hchanged
      cases hchanged
    · rw [hproduct] at hproduct'
      cases hproduct'
  · refine ⟨.inr (.inl rfl), iff_of_false ?_ (not_not.mpr ?_)⟩
    · rw [hkept]
      exact fun h => absurd (h.mpr ⟨x, rfl⟩) (by omega)
    · rcases hignored with hsize | ⟨array, htransaction, hunchanged | hproduct⟩
      · exact .inl hsize
      · refine .inr ⟨⟨array, htransaction⟩, .inl ?_⟩
        obtain ⟨v, hv, -⟩ := any_eq_true _ _ |>.mp hunchanged
        exact isSome_of_eq_some hv
      · exact .inr ⟨⟨array, htransaction⟩, .inr hproduct⟩
  · refine ⟨.inr hrc, iff_of_true (iff_of_false (by omega) ?_) ?_⟩
    · rw [hcleared]
      rintro ⟨xo, h⟩
      cases h
    · rintro (hsize | ⟨⟨array, htransaction⟩, -⟩)
      · exact Nat.not_lt.mpr hle hsize
      · exact hfailed array htransaction

theorem read_logged_iff (hxo : c.xo = some none) (hdescriptor : c.descriptor = none)
    (hctx : (c.device.modbusCtx || c.device.networkCtx) = true) :
    (∃ b d, c._modbusAccessRead o attr = some (b, d) ∧ d.completed = c.completed ∧
        (b = true ↔ d.Produced)) ↔
      (attr.modbusTypeID = .accessBool →
        ¬(BoolReported o attr c.lastVal ∧ ArrayIgnored o attr c.lastVal)) := by
  have hend {rc : Int} {d : Call} (heq : c.dispatch o attr = some (rc, d))
      (hcompleted : d.completed = c.completed) (hrc : rc = 0 ∨ rc = 1 ∨ rc = 2) :
      (∃ b d, c._modbusAccessRead o attr = some (b, d) ∧ d.completed = c.completed ∧
        (b = true ↔ d.Produced)) ↔ (rc = 0 ↔ d.Produced) := by
    rw [_modbusAccessRead, hctx, if_neg (by decide), heq, map_some]
    obtain ⟨hcode, hproduced⟩ := conclude_produced (c := d) hrc
    constructor
    · rintro ⟨b, e, hconclude, -, hiff⟩
      have hconclude := Option.some.inj hconclude
      rw [hconclude] at hcode hproduced
      exact hcode.symm.trans (hiff.trans hproduced)
    · intro hiff
      exact ⟨_, _, rfl, (conclude_completed hrc).trans hcompleted,
        hcode.trans (hiff.trans hproduced.symm)⟩
  cases htype : attr.modbusTypeID with
  | accessBool =>
    obtain ⟨rc, d, heq, hcompleted, hnone, hcases⟩ :=
      modbusAccessReadBool_logged (o := o) attr hxo hdescriptor
    have hdispatch : c.dispatch o attr = d.modbusAccessReadArray o attr := by
      rw [dispatch, htype]
      rw [heq, bind_some]
    rcases hcases with ⟨hreported, ⟨x, hx⟩, hsome, hbool⟩ | ⟨hreported, hempty⟩
    · obtain ⟨rc', e, heq', hcompleted', hrc, hiff⟩ :=
        modbusAccessReadArray_behind (o := o) attr hx hnone hbool
      rw [hend (hdispatch.trans heq') (hcompleted'.trans hcompleted) hrc, hiff, ArrayIgnored,
        hsome, ← ArrayIgnored]
      simp only [hreported, true_and, forall_const]
    · obtain ⟨rc', e, heq', hcompleted', hrc, hiff⟩ :=
        modbusAccessReadArray_produced (o := o) attr hempty hnone
      rw [hend (hdispatch.trans heq') (hcompleted'.trans hcompleted) hrc]
      exact iff_of_true hiff fun _ h => hreported h.1
  | accessArray =>
    obtain ⟨rc, d, heq, hcompleted, hrc, hiff⟩ :=
      modbusAccessReadArray_produced (o := o) attr hxo hdescriptor
    have hdispatch : c.dispatch o attr = some (rc, d) := by
      rw [dispatch, htype]
      exact heq
    rw [hend hdispatch hcompleted hrc]
    exact iff_of_true hiff nofun
  | unsupported =>
    refine iff_of_true ⟨false, c.refuse 501, ?_, ?_, ?_⟩ nofun
    · rw [_modbusAccessRead, hctx, if_neg (by decide), dispatch, htype]
      rfl
    · rw [refuse_of_some hxo]
    · rw [refuse_of_some hxo]
      exact iff_of_false Bool.false_ne_true (not_produced hdescriptor rfl)

/-! ### The interface of an application -/

/-- Something was told: the network, or the place of the descriptor. -/
def Told (c : Call) : Prop :=
  c.completed ≠ [] ∨ ∃ text, c.descriptor = some (some text)

theorem told_complete (code : Nat) : (c.complete code).Told :=
  .inl (by simp [complete])

theorem modbusAccessReadBool_describe (attr : Attr_t) {x : Option String} (hxo : c.xo = none)
    (hdescriptor : c.descriptor = some x) :
    ∃ rc d, c.modbusAccessReadBool o attr = some (rc, d) ∧ d.Told ∧ d.xo = none ∧
      ∃ x', d.descriptor = some x' := by
  simp only [modbusAccessReadBool, refuse_of_none hxo]
  cases attr.boolTransaction o with
  | none => exact ⟨1, _, rfl, told_complete 501, hxo, x, hdescriptor⟩
  | some result =>
    cases result with
    | none => exact ⟨2, _, rfl, told_complete 503, hxo, x, hdescriptor⟩
    | some value =>
      simp only [hdescriptor]
      exact ⟨1, _, rfl, .inr ⟨_, rfl⟩, hxo, _, rfl⟩

theorem modbusAccessReadArray_describe (attr : Attr_t) {x : Option String} (hxo : c.xo = none)
    (hdescriptor : c.descriptor = some x) :
    ∃ rc d, c.modbusAccessReadArray o attr = some (rc, d) ∧ (rc = 0 ∨ rc = 1 ∨ rc = 2) ∧ rc ≠ 0 ∧
      (attr.nbRead ≤ maxModbusAccessSize ∨ c.Told → d.Told) := by
  by_cases hsize : maxModbusAccessSize < attr.nbRead
  · refine ⟨1, c, modbusAccessReadArray_oversized hsize, .inr (.inl rfl), by omega, ?_⟩
    rintro (hle | htold)
    · exact absurd hsize (Nat.not_lt.mpr hle)
    · exact htold
  · simp only [modbusAccessReadArray, if_neg hsize, refuse_of_none hxo]
    cases attr.arrayTransaction o with
    | none => exact ⟨1, _, rfl, .inr (.inl rfl), by omega, fun _ => told_complete 501⟩
    | some result =>
      cases result with
      | none => exact ⟨2, _, rfl, .inr (.inr rfl), by omega, fun _ => told_complete 503⟩
      | some array =>
        simp only [hdescriptor]
        exact ⟨1, _, rfl, .inr (.inl rfl), by omega, fun _ => .inr ⟨_, rfl⟩⟩

/-- Which reads of a descriptor complete nothing and count as a success exactly when they give one:
those that do nothing at all. -/
theorem read_describe_iff (hxo : c.xo = none) (hdescriptor : c.descriptor = some none)
    (hcompleted : c.completed = []) :
    (∃ b d, c._modbusAccessRead o attr = some (b, d) ∧ d.completed = [] ∧
        (b = true ↔ d.Produced)) ↔
      (c.device.modbusCtx || c.device.networkCtx) = true ∧ attr.modbusTypeID = .accessArray ∧
        maxModbusAccessSize < attr.nbRead := by
  have hwrong {d : Call} (heq : c._modbusAccessRead o attr = some (false, d)) (htold : d.Told) :
      ¬∃ b d, c._modbusAccessRead o attr = some (b, d) ∧ d.completed = [] ∧
        (b = true ↔ d.Produced) := by
    rintro ⟨b, e, heq', hempty, hiff⟩
    rw [heq] at heq'
    obtain ⟨rfl, rfl⟩ := Prod.mk.inj (Option.some.inj heq')
    rcases htold with hne | htext
    · exact hne hempty
    · exact Bool.false_ne_true (hiff.mpr (.inr htext))
  have hfail {rc : Int} {d : Call} (hrc : rc = 0 ∨ rc = 1 ∨ rc = 2) (hne : rc ≠ 0)
      (htold : d.Told) : (conclude rc d).1 = false ∧ (conclude rc d).2.Told := by
    rcases hrc with rfl | rfl | rfl
    · exact absurd rfl hne
    · exact ⟨rfl, htold⟩
    · exact ⟨rfl, htold⟩
  by_cases hctx : (c.device.modbusCtx || c.device.networkCtx) = true
  · have hread : c._modbusAccessRead o attr =
        (c.dispatch o attr).map fun r => conclude r.1 r.2 := by
      rw [_modbusAccessRead, hctx, if_neg (by decide)]
    cases htype : attr.modbusTypeID with
    | accessBool =>
      refine iff_of_false ?_ fun h => by cases h.2.1
      obtain ⟨rc, d, heq, htold, hnone, x, hx⟩ :=
        modbusAccessReadBool_describe (o := o) attr hxo hdescriptor
      obtain ⟨rc', e, heq', hrc, hne, hkept⟩ :=
        modbusAccessReadArray_describe (o := o) attr hnone hx
      obtain ⟨hfalse, htold'⟩ := hfail hrc hne (hkept (.inr htold))
      refine hwrong ?_ htold'
      rw [hread, dispatch, htype]
      rw [heq, bind_some, heq', map_some, ← hfalse]
    | accessArray =>
      obtain ⟨rc, d, heq, hrc, hne, hkept⟩ :=
        modbusAccessReadArray_describe (o := o) attr hxo hdescriptor
      by_cases hsize : maxModbusAccessSize < attr.nbRead
      · refine iff_of_true ⟨false, c, ?_, hcompleted, ?_⟩ ⟨hctx, rfl, hsize⟩
        · rw [hread, dispatch, htype]
          rw [modbusAccessReadArray_oversized hsize]
          rfl
        · refine iff_of_false Bool.false_ne_true ?_
          rw [Produced, hxo, hdescriptor]
          rintro (⟨xo, h⟩ | ⟨text, h⟩) <;> cases h
      · refine iff_of_false ?_ fun h => hsize h.2.2
        obtain ⟨hfalse, htold⟩ := hfail hrc hne (hkept (.inl (Nat.le_of_not_lt hsize)))
        refine hwrong ?_ htold
        rw [hread, dispatch, htype]
        rw [heq, map_some, ← hfalse]
    | unsupported =>
      refine iff_of_false (hwrong ?_ (told_complete (c := c) 501)) fun h => by cases h.2.1
      rw [hread, dispatch, htype, ← refuse_of_none hxo]
      rfl
  · refine iff_of_false (hwrong ?_ (told_complete (c := c) 503)) fun h => hctx h.1
    rw [_modbusAccessRead, Bool.eq_false_iff.mpr hctx, if_pos (by decide), refuse_of_none hxo]

/-! ### The writes -/

theorem modbusAccessWriteBool_completed (attr : Attr_t) : ∃ rc code,
    c.modbusAccessWriteBool o attr = (rc, c.complete code) := by
  rw [modbusAccessWriteBool]
  split
  · split <;> exact ⟨_, _, rfl⟩
  · split
    · exact ⟨_, _, rfl⟩
    · split <;> exact ⟨_, _, rfl⟩
  · exact ⟨_, _, rfl⟩

theorem modbusAccessWrite_completed (val : Option Bool) :
    ∃ code, (c.modbusAccessWrite o attr val).completed = c.completed ++ [code] := by
  rw [modbusAccessWrite]
  split
  · exact ⟨_, rfl⟩
  · split
    · split
      · exact ⟨_, rfl⟩
      · obtain ⟨rc, code, heq⟩ := modbusAccessWriteBool_completed (o := o) attr (c := c)
        rw [heq]
        dsimp only
        split <;> exact ⟨code, rfl⟩
    · exact ⟨_, rfl⟩

end Call

/-- **Which accesses end rightly for their caller.** -/
theorem rightly_iff_answered (o : Outcomes) (device : Connection) (attr : Attr_t) (r : Request) :
    Rightly o device attr r ↔ Answered o device attr r := by
  cases r with
  | read =>
    by_cases hctx : (device.modbusCtx || device.networkCtx) = true
    · simp only [Rightly, Answered, hctx, forall_const]
      exact Call.read_network_iff rfl rfl rfl hctx
    · refine iff_of_true ⟨false, (Request.read.call device).complete 503, 503, ?_, rfl⟩
        fun h => absurd h hctx
      rw [Call._modbusAccessRead, if_pos (by simpa [Request.call] using hctx)]
      rfl
  | write val =>
    exact iff_of_true (Call.modbusAccessWrite_completed val) trivial
  | log lastVal =>
    by_cases hctx : (device.modbusCtx || device.networkCtx) = true
    · simp only [Rightly, Answered, hctx, forall_const]
      exact Call.read_logged_iff rfl rfl hctx
    · refine iff_of_true ⟨false, ((Request.log lastVal).call device).refuse 503, ?_, rfl, ?_⟩
        fun h => absurd h hctx
      · rw [Call._modbusAccessRead, if_pos (by simpa [Request.call] using hctx)]
      · exact iff_of_false Bool.false_ne_true (Call.not_produced rfl rfl)
  | describe => exact Call.read_describe_iff rfl rfl rfl

/-- A boolean register is answered twice: by the boolean access, and by the array access that
follows it. -/
theorem not_rightly_register :
    ¬Rightly ⟨none, some 8, none, true, true, true, true, fun _ => true⟩ ⟨false, true, false⟩
      ⟨.accessBool, 8, 0, 1, .holding⟩ .read := by
  rintro ⟨b, c, code, heq, hcode⟩
  have hread : (Request.read.call ⟨false, true, false⟩)._modbusAccessRead
      ⟨none, some 8, none, true, true, true, true, fun _ => true⟩
      ⟨.accessBool, 8, 0, 1, .holding⟩ =
        some (false, ⟨[500, 503], none, none, none, ⟨false, false, false⟩⟩) := rfl
  obtain ⟨-, rfl⟩ := Prod.mk.inj (Option.some.inj (hread.symm.trans heq))
  cases hcode

end Ong.Modbus
