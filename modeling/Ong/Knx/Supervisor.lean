import Mathlib.Data.Finset.Card

/-!
# The KNX supervisor

The supervisor keeps a device for each physical device and each group address of a topology, and
creates and deletes what belongs to it on the network side, by one DIA request after the other.
-/

namespace Ong.Knx

/-! ## Devices and requests -/

/-- A device of a network, physical or for a group address. -/
structure Sensor where
  serial : Nat
  knxId : UInt32 := 0
  isInit : Bool := false
  isAppInit : Bool := false
  isCntInit : Bool := false
  isARInit : Bool := false
  isAR2Init : Bool := false
  isAR3Init : Bool := false
  toDelete : Bool := false

/-- The requests, for the device with a serial number, unless they are for the network. -/
inductive DiaRequest
  | netStart
  | devStart (serial : Nat)
  | accStart (serial acc : Nat)
  | appStart (serial : Nat)
  | datStart (serial : Nat)
  | netDelete
  | devDelete (serial : Nat)
  | accDelete (serial acc : Nat)
  | appDelete (serial : Nat)
  deriving DecidableEq

def DiaRequest.isCreate : DiaRequest → Bool
  | .netStart | .devStart _ | .accStart _ _ | .appStart _ | .datStart _ => true
  | .netDelete | .devDelete _ | .accDelete _ _ | .appDelete _ => false

def DiaRequest.serial? : DiaRequest → Option Nat
  | .netStart | .netDelete => none
  | .devStart serial | .accStart serial _ | .appStart serial | .datStart serial => some serial
  | .devDelete serial | .accDelete serial _ | .appDelete serial => some serial

/-- A request that is issued, and whether its device is marked for deletion. -/
structure Issue where
  request : DiaRequest
  toDelete : Bool

/-! ## Topologies -/

/-- An object of a device: whether its data point type is reported, and its group addresses. -/
structure XoObject where
  covDptEnable : Bool
  groupAddr : List UInt32

/-- A physical device, with an address that may not have the form `area.line.device`. -/
structure XoDevice where
  addr : Option (UInt32 × UInt32 × UInt32)
  object : List XoObject

abbrev Topology := List XoDevice

def XoDevice.knxId (d : XoDevice) : Option UInt32 :=
  d.addr.map fun (a, b, c) => (a <<< 11) + (b <<< 8) + c

/-- A network: its own device, the devices that it holds, the requests in progress, what the last
event issued, and the last topology that was received. -/
structure Network where
  device : Sensor
  deviceApp : List Sensor := []
  groupApp : List Sensor := []
  requests : List DiaRequest := []
  issued : List Issue := []
  topology : Topology := []

namespace Network

variable (n : Network)

def sensors : List Sensor := n.deviceApp ++ n.groupApp

def issue : Option Issue → Network
  | none => n
  | some i => { n with requests := n.requests ++ [i.request], issued := n.issued ++ [i] }

/-- What a callback does to the device of its request. -/
def update (serial : Nat) (f : Sensor → Sensor) : Network :=
  { n with
    deviceApp := n.deviceApp.map fun cp => if cp.serial = serial then f cp else cp
    groupApp := n.groupApp.map fun cp => if cp.serial = serial then f cp else cp }

/-- The device is taken out of its list. -/
def remove (serial : Nat) : Network :=
  { n with
    deviceApp := n.deviceApp.filter fun cp => cp.serial ≠ serial
    groupApp := n.groupApp.filter fun cp => cp.serial ≠ serial }

/-- The context of a request, which the device may have left. -/
def Holds (serial : Nat) : Prop := ∃ cp ∈ n.sensors, cp.serial = serial

instance (serial : Nat) : Decidable (n.Holds serial) := inferInstanceAs (Decidable (∃ _ ∈ _, _))

end Network

/-! ## The walks -/

variable (cp : Sensor)

def devToDelete : Option Issue :=
  if cp.toDelete = false then none
  else if cp.isInit = true then some ⟨.devDelete cp.serial, cp.toDelete⟩
  else none

def appToDelete : Option Issue :=
  if cp.toDelete = false then none
  else if cp.isAppInit = true then some ⟨.appDelete cp.serial, cp.toDelete⟩
  else if cp.isARInit = true then some ⟨.accDelete cp.serial 0, cp.toDelete⟩
  else if cp.isAR2Init = true then some ⟨.accDelete cp.serial 1, cp.toDelete⟩
  else if cp.isAR3Init = true then some ⟨.accDelete cp.serial 2, cp.toDelete⟩
  else none

/-- The first request of the deletion. -/
def Network.nextDelete (n : Network) : Option Issue :=
  (n.groupApp.findSome? appToDelete).or <|
  (n.deviceApp.findSome? appToDelete).or <|
  (n.groupApp.findSome? devToDelete).or <|
  (n.deviceApp.findSome? devToDelete).or <|
  if n.device.toDelete = true ∧ n.device.isInit = true then some ⟨.netDelete, n.device.toDelete⟩
  else none

def sensorDiaDeleteNext (n : Network) : Network := n.issue n.nextDelete

def devToCreate : Option Issue :=
  if cp.isInit = false then some ⟨.devStart cp.serial, cp.toDelete⟩ else none

def appToCreate : Option Issue :=
  if cp.isARInit = false then some ⟨.accStart cp.serial 0, cp.toDelete⟩
  else if cp.isAR2Init = false then some ⟨.accStart cp.serial 1, cp.toDelete⟩
  else if cp.isAR3Init = false then some ⟨.accStart cp.serial 2, cp.toDelete⟩
  else if cp.isAppInit = false then some ⟨.appStart cp.serial, cp.toDelete⟩
  else none

def cntToCreate : Option Issue :=
  if cp.isCntInit = false then some ⟨.datStart cp.serial, cp.toDelete⟩ else none

/-- The first request of the creation. -/
def Network.nextCreate (n : Network) : Option Issue :=
  if n.device.isInit = false then some ⟨.netStart, n.device.toDelete⟩
  else
    (n.deviceApp.findSome? devToCreate).or <|
    (n.groupApp.findSome? devToCreate).or <|
    (n.deviceApp.findSome? appToCreate).or <|
    (n.groupApp.findSome? appToCreate).or <|
    n.groupApp.findSome? cntToCreate

def sensorDiaCreateNext (n : Network) : Network := n.issue n.nextCreate

/-! ## A new topology -/

def MAX_SSR_PER_RTR : Nat := 10240

def MAX_KNX_DEVICE : Nat := 10000

/-- What the table of the devices is used for: `NbSensor`, and the next serial number. -/
structure SensorTable where
  nbSensor : Nat
  nextSerial : Nat

variable (tb : SensorTable)

/-- `SensorCreateDevice`, which fails when there is no room; the array itself has `MAX_KNX_DEVICE`
rooms. -/
def sensorCreateDevice : Option (Sensor × SensorTable) :=
  if tb.nbSensor < MAX_SSR_PER_RTR
  then some ({ serial := tb.nextSerial }, ⟨tb.nbSensor + 1, tb.nextSerial + 1⟩)
  else none

/-- A device that a topology names. -/
def Sensor.refresh (knxId : UInt32) : Sensor :=
  { cp with toDelete := false, isInit := false, isAppInit := false, knxId := knxId }

/-- The first device with the address is kept. -/
def refreshFirst (knxId : UInt32) : List Sensor → List Sensor
  | [] => []
  | cp :: cps => if cp.knxId = knxId then cp.refresh knxId :: cps else cp :: refreshFirst knxId cps

/-- A device with the address is found or created; `none` when there is no room. -/
def holdSensor (cps : List Sensor) (knxId : UInt32) :
    Option (SensorTable × List Sensor) :=
  if ∃ cp ∈ cps, cp.knxId = knxId then some (tb, refreshFirst knxId cps)
  else (sensorCreateDevice tb).map fun (cp, tb) => (tb, cp.refresh knxId :: cps)

variable (p : SensorTable × Network)

def initializeGroupAddr (addr : UInt32) : SensorTable × Network :=
  match holdSensor p.1 p.2.groupApp addr with
  | none => p
  | some (tb, cps) => (tb, { p.2 with groupApp := cps })

def initializeObject (o : XoObject) : SensorTable × Network :=
  if o.covDptEnable = false then p else o.groupAddr.foldl initializeGroupAddr p

def initializeDevice (d : XoDevice) : SensorTable × Network :=
  match d.knxId with
  | none => p
  | some knxId =>
    match holdSensor p.1 p.2.deviceApp knxId with
    | none => p
    | some (tb, cps) => d.object.foldl initializeObject (tb, { p.2 with deviceApp := cps })

def Network.markAll (n : Network) : Network :=
  { n with
    deviceApp := n.deviceApp.map fun cp => { cp with toDelete := true }
    groupApp := n.groupApp.map fun cp => { cp with toDelete := true } }

/-- `SensorInitializeNetwork`; a response that cannot be parsed changes nothing. -/
def sensorInitializeNetwork (n : Network) :
    Option Topology → SensorTable × Network
  | none => (tb, n)
  | some newXo =>
    let p := newXo.foldl initializeDevice (tb, n.markAll)
    (p.1, sensorDiaDeleteNext { p.2 with
      topology := newXo
      device := { p.2.device with isInit := false } })

/-! ## The positive responses -/

/-- The access rights are counted. -/
def Sensor.accOk : Sensor :=
  if cp.isARInit = false then { cp with isARInit := true }
  else if cp.isAR2Init = false then { cp with isAR2Init := true }
  else if cp.isAR3Init = false then { cp with isAR3Init := true }
  else cp

def Sensor.accDelOk : Sensor :=
  if cp.isARInit = true then { cp with isARInit := false }
  else if cp.isAR2Init = true then { cp with isAR2Init := false }
  else if cp.isAR3Init = true then { cp with isAR3Init := false }
  else cp

/-- What a callback records. -/
def Network.record (n : Network) : DiaRequest → Network
  | .netStart => { n with device := { n.device with isInit := true } }
  | .devStart serial => n.update serial fun cp => { cp with isInit := true }
  | .accStart serial _ => n.update serial Sensor.accOk
  | .appStart serial => n.update serial fun cp => { cp with isAppInit := true }
  | .datStart serial => n.update serial fun cp => { cp with isCntInit := true }
  | .netDelete => n
  | .devDelete serial => n.remove serial
  | .accDelete serial _ => n.update serial Sensor.accDelOk
  | .appDelete serial => n.update serial fun cp => { cp with isAppInit := false }

/-- The request finds the context of its device. -/
def Network.HasContext (n : Network) (r : DiaRequest) : Prop := ∀ serial ∈ r.serial?, n.Holds serial

instance (n : Network) (r : DiaRequest) : Decidable (n.HasContext r) :=
  match h : r.serial? with
  | none => isTrue fun _ hmem => by simp [h] at hmem
  | some serial => decidable_of_iff (n.Holds serial) (by simp [Network.HasContext, h])

/-- The callback of a positive response, where the device is still there; a network that was deleted
is freed. -/
def requestOk (n : Network) (r : DiaRequest) : SensorTable × Option Network :=
  if n.HasContext r then
    match r with
    | .netDelete => ({ tb with nbSensor := tb.nbSensor - 1 }, none)
    | .devDelete serial =>
      ({ tb with nbSensor := tb.nbSensor - 1 }, some (sensorDiaDeleteNext (n.record (.devDelete serial))))
    | r =>
      (tb, some (if r.isCreate then sensorDiaCreateNext (n.record r)
        else sensorDiaDeleteNext (n.record r)))
  else (tb, some n)

/-! ## Runs -/

structure Supervisor where
  networks : List Network
  table : SensorTable

/-- A topology for a network, a topology that could not be fetched, or the positive response to a
request of a network. -/
inductive SupervisorEvent
  | topology (i : Nat) (newXo : Option Topology)
  | topologyError
  | ok (i : Nat) (r : DiaRequest)

def sensorStartupNetworks (networks : List Network) : List Network :=
  networks.map sensorDiaCreateNext

/-- One event; `none` when it cannot happen. -/
def supervisorStep (w : Supervisor) (e : SupervisorEvent) : Option Supervisor :=
  let networks := w.networks.map fun n => { n with issued := [] }
  match e with
  | .topology i newXo =>
    networks[i]?.map fun n =>
      let p := sensorInitializeNetwork w.table n newXo
      ⟨sensorStartupNetworks (networks.set i p.2), p.1⟩
  | .topologyError => some ⟨sensorStartupNetworks networks, w.table⟩
  | .ok i r =>
    networks[i]?.bind fun n =>
      -- only a request that is still under way can be answered
      if r ∈ n.requests then
        match requestOk w.table { n with requests := n.requests.erase r } r with
        | (tb, some n) => some ⟨networks.set i n, tb⟩
        -- the last answer of a network that goes away
        | (tb, none) => some ⟨networks.eraseIdx i, tb⟩
      else none

/-- The supervisor with some new networks. -/
def newSupervisor (nb : Nat) : Supervisor :=
  ⟨(List.range nb).map fun i => { device := { serial := i + 1 } }, ⟨nb, nb + 1⟩⟩

end Ong.Knx
