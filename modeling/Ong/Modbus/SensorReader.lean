import Mathlib.Algebra.Ring.Int.Defs
import Ong.Lib.Run

/-!
# The reader of the modbus supervisor

`modbusReaderClockMs` goes through the logged points of every sensor: a point whose `nextRead` has
passed is read through the access layer, which compares what it reads with the value cached in the
point and hands an object back only when there is something to report.
-/

namespace Ong.Modbus

/-- The modbus types `_modbusAccessRead` knows, and all the others. -/
inductive ModbusTypeID
  | accessBool
  | accessArray
  | unsupported
  deriving DecidableEq

/-- The register maps of a slave. -/
inductive RegisterMap
  | notMapped
  | discretes
  | coils
  | input
  | holding
  deriving DecidableEq

/-- The part of `Attr_t` the access layer reads. -/
structure Attr_t where
  modbusTypeID : ModbusTypeID
  mask : UInt16
  bytes : Nat
  reg : Int
  map : RegisterMap

/-- The contents of a slave at the moment of one modbus read. -/
structure Slave where
  discretes : Int → Bool
  coils : Int → Bool
  input : Int → UInt16
  holding : Int → UInt16

/-- An object built for a report, with the value it was built from: `dat_bool.xml`, or the
representation the product descriptor gives of the registers. -/
inductive Xo
  | datBool (value : Bool)
  | product (array : List UInt16)
  deriving DecidableEq

/-- The cached value.  The two members of the union are two fields: the type guards every
access, so that none is read as the other. -/
structure Value_t where
  typeID : ModbusTypeID
  boolValue : Bool
  arrayValue : List UInt16

namespace Value_t

def setBool (This : Value_t) (val : Bool) : Value_t :=
  { This with typeID := .accessBool, boolValue := val }

def boolValueHasChanged (This : Value_t) (val : Bool) : Bool :=
  if This.typeID ≠ .accessBool then false else val != This.boolValue

-- unlike `setBool`, this one leaves the type as it is
def setArray (This : Value_t) (val : List UInt16) : Value_t :=
  { This with arrayValue := val }

def arrayValueHasChanged (This : Value_t) (val : List UInt16) : Bool :=
  if This.typeID ≠ .accessArray then false
  else if val.length ≠ This.arrayValue.length then true
  else val != This.arrayValue

theorem arrayValueHasChanged_iff {This : Value_t} (h : This.typeID = .accessArray)
    (val : List UInt16) : This.arrayValueHasChanged val = true ↔ This.arrayValue ≠ val := by
  unfold arrayValueHasChanged
  rw [if_neg (not_not.mpr h)]
  split
  · rename_i hlen
    exact iff_of_true rfl fun heq => hlen (by rw [heq])
  · rw [bne_iff_ne]
    exact ⟨Ne.symm, Ne.symm⟩

end Value_t

def maxModbusAccessSize : Nat := 1024

namespace Attr_t

variable (attr : Attr_t)

/-- The registers an array access reads. -/
def nbRead : Nat := attr.bytes / 2 + attr.bytes % 2

/-- The value a boolean access reads, when the map is one of the four. -/
def readBool (slave : Slave) : Option Bool :=
  match attr.map with
  | .notMapped => none
  | .discretes => some (slave.discretes attr.reg)
  | .coils => some (slave.coils attr.reg)
  | .input => some (slave.input attr.reg &&& attr.mask != 0)
  | .holding => some (slave.holding attr.reg &&& attr.mask != 0)

/-- The registers an array access obtains, when the size and the map allow it. -/
def readArray (slave : Slave) : Option (List UInt16) :=
  if maxModbusAccessSize < attr.nbRead then none
  else match attr.map with
    | .input => some ((List.range attr.nbRead).map fun i => slave.input (attr.reg + i))
    | .holding => some ((List.range attr.nbRead).map fun i => slave.holding (attr.reg + i))
    | _ => none

end Attr_t

/-- The return code of an access, its object and the cached value it was given, as it leaves it. -/
structure AccessResult where
  rc : Nat
  xo : Option Xo
  lastVal : Option Value_t

/-- `modbusAccessReadBool`, called for logging. -/
def modbusAccessReadBool (slave : Slave) (attr : Attr_t) (xo : Option Xo)
    (lastVal : Option Value_t) : AccessResult :=
  match attr.readBool slave with
  | none => ⟨1, none, lastVal⟩
  | some value =>
    if lastVal.any fun v => !v.boolValueHasChanged value then ⟨1, xo, lastVal⟩
    else ⟨0, some (.datBool value), lastVal.map (·.setBool value)⟩

/-- `modbusAccessReadArray`, called for logging. -/
def modbusAccessReadArray (slave : Slave) (attr : Attr_t) (xo : Option Xo)
    (lastVal : Option Value_t) : AccessResult :=
  if maxModbusAccessSize < attr.nbRead then ⟨1, xo, lastVal⟩
  else match attr.readArray slave with
    | none => ⟨1, none, lastVal⟩
    | some array =>
      if lastVal.any fun v => !v.arrayValueHasChanged array then ⟨1, xo, lastVal⟩
      else ⟨0, some (.product array), lastVal.map (·.setArray array)⟩

/-- The contents of the slave at the first and at the second modbus read of an access. -/
structure Bus where
  first : Slave
  second : Slave

/-- `_modbusAccessRead` on a connected device: whether it succeeds, with the object and the cached
value as the access leaves them. -/
def _modbusAccessRead (bus : Bus) (attr : Attr_t) (lastVal : Option Value_t) :
    Bool × Option Xo × Option Value_t :=
  match attr.modbusTypeID with
  | .accessBool =>
    let bool := modbusAccessReadBool bus.first attr none lastVal
    -- the case has no `break`: the array access follows, and its code is the one that counts
    let array := modbusAccessReadArray bus.second attr bool.xo bool.lastVal
    (array.rc == 0, array.xo, array.lastVal)
  | .accessArray =>
    let array := modbusAccessReadArray bus.first attr none lastVal
    (array.rc == 0, array.xo, array.lastVal)
  | .unsupported => (false, none, lastVal)

/-- The value a read of the point obtains: a boolean for a boolean point, the registers for an
array. -/
def Attr_t.obtained (attr : Attr_t) (bus : Bus) : Option Xo :=
  match attr.modbusTypeID with
  | .accessBool => (attr.readBool bus.first).map .datBool
  | .accessArray => (attr.readArray bus.first).map .product
  | .unsupported => none

/-- One read of a point: when it was made, the value it obtained, and the value carried by the
report it created, if any. -/
structure PointRead where
  time : Int
  value : Xo
  report : Option Xo

/-- A logged point.  `log` is what an observer of the reads and of the reports keeps, the latest
read first; the code never looks at it. -/
structure Point_t where
  isInit : Bool
  nextMaxInterval : Int
  nextRead : Int
  minInterval : Int
  maxInterval : Int
  lastVal : Value_t
  attr : Attr_t
  log : List PointRead

namespace Point_t

/-- The observer's entry for a read that obtains a value. -/
def logged (pt : Point_t) (now : Int) (bus : Bus) (report : Option Xo) : List PointRead :=
  match pt.attr.obtained bus with
  | none => pt.log
  | some value => ⟨now, value, report⟩ :: pt.log

/-- The read of one point whose time has come. -/
def read (pt : Point_t) (now : Int) (bus : Bus) : Point_t :=
  let val := if pt.nextMaxInterval < now then none else some pt.lastVal
  let (valueChanged, xo, val) := _modbusAccessRead bus pt.attr val
  let report := if valueChanged then xo else none
  { pt with
    lastVal := val.getD pt.lastVal
    nextMaxInterval := if report.isSome then now + pt.maxInterval else pt.nextMaxInterval
    nextRead := now + pt.minInterval
    log := pt.logged now bus report }

/-- The body of the loop over the points. -/
def clockMs (pt : Point_t) (now : Int) (bus : Bus) : Point_t :=
  if pt.isInit && pt.nextRead < now then pt.read now bus else pt

end Point_t

structure Sensor_t where
  isInit : Bool
  cnts : List Point_t

structure Network_t where
  isInit : Bool
  device : List Sensor_t

def Sensor_t.clockMs (device : Sensor_t) (now : Int) (bus : Nat → Bus) : Sensor_t :=
  if device.isInit then
    { device with cnts := device.cnts.mapIdx fun k pt => pt.clockMs now (bus k) }
  else device

def Network_t.clockMs (network : Network_t) (now : Int) (bus : Nat → Nat → Bus) : Network_t :=
  if network.isInit then
    { network with device := network.device.mapIdx fun j device => device.clockMs now (bus j) }
  else network

/-- `modbusReaderClockMs` at `now`; `bus i j k` is what the reads of the point `k` of the sensor `j`
of the network `i` find. -/
def modbusReaderClockMs (now : Int) (bus : Nat → Nat → Nat → Bus) (networks : List Network_t) :
    List Network_t :=
  networks.mapIdx fun i network => network.clockMs now (bus i)

/-- The supervisor: the monotonic clock of the last call, and the networks. -/
structure Supervisor where
  clock : Int
  networks : List Network_t

/-- A clock call: its time, and what each modbus read finds. -/
structure Tic where
  now : Int
  bus : Nat → Nat → Nat → Bus

/-- One call of `modbusReaderClockMs`; the clock never goes back. -/
def step (s : Supervisor) (e : Tic) : Option Supervisor :=
  if s.clock ≤ e.now then some ⟨e.now, modbusReaderClockMs e.now e.bus s.networks⟩ else none

/-- The point `k` of the sensor `j` of the network `i`. -/
def pointAt (networks : List Network_t) (i j k : Nat) : Option Point_t :=
  networks[i]?.bind fun network => network.device[j]?.bind fun device => device.cnts[k]?

/-- The loops reach the points of the sensor. -/
def scanned (networks : List Network_t) (i j : Nat) : Bool :=
  networks[i]?.any fun network => network.isInit && network.device[j]?.any (·.isInit)

/-- **A clock call, point by point**: no point depends on another. -/
theorem pointAt_modbusReaderClockMs (now : Int) (bus : Nat → Nat → Nat → Bus)
    (networks : List Network_t) (i j k : Nat) :
    pointAt (modbusReaderClockMs now bus networks) i j k =
      (pointAt networks i j k).map fun pt =>
        if scanned networks i j then pt.clockMs now (bus i j k) else pt := by
  unfold pointAt scanned modbusReaderClockMs
  rw [List.getElem?_mapIdx]
  cases networks[i]? with
  | none => rfl
  | some network =>
    simp only [Option.map_some, Option.bind_some, Option.any_some, Network_t.clockMs]
    by_cases hn : network.isInit = true
    · simp only [hn, if_true, List.getElem?_mapIdx, Bool.true_and]
      cases network.device[j]? with
      | none => rfl
      | some device =>
        simp only [Option.map_some, Option.bind_some, Option.any_some, Sensor_t.clockMs]
        by_cases hd : device.isInit = true
        · simp [hd, List.getElem?_mapIdx]
        · simp [hd]
    · simp [hn]

end Ong.Modbus
