import Mathlib.Data.List.Perm.Basic

/-!
# The message and timer queue

A queue has a list of messages and a list of timers, which also holds the messages that are delayed.
A delayed message becomes an ordinary one during the get that finds it expired.
-/

namespace Ong.Rtbase

/-- What the clock says: seconds, and nanoseconds. -/
structure Clock where
  now : Int
  nowns : Int

/-- A message, with its address. -/
structure Imsg where
  address : Nat
  imTimer : Bool
  imDelayed : Bool := false
  imClass : Int
  imType : Int
  imTo : Nat
  imEnd : Int
  imEndns : Int
  imDiffms : Int
  deriving DecidableEq

/-- The time `delta` ms after the clock. -/
def Clock.after (clock : Clock) (delta : Int) : Int × Int :=
  let imEnd := clock.now + delta.tdiv 1000
  let imEndns := clock.nowns + delta.tmod 1000 * 1000000
  if imEndns ≥ 1000000000 then (imEnd + 1, imEndns - 1000000000) else (imEnd, imEndns)

/-- `rtl_timerAlloc` -/
def timerAlloc (address : Nat) (imClass imType delta : Int) (imTo : Nat) (clock : Clock) : Imsg where
  address := address
  imTimer := true
  imClass := imClass
  imType := imType
  imTo := imTo
  imEnd := (clock.after delta).1
  imEndns := (clock.after delta).2
  imDiffms := delta

/-- The end of a message. -/
def Imsg.stop (m : Imsg) : Int × Int := (m.imEnd, m.imEndns)

def cmpTime (t₁ t₂ : Int × Int) : Int :=
  if t₁.1 > t₂.1 then 1000000000
  else if t₁.1 < t₂.1 then -1000000000
  else t₁.2 - t₂.2

/-- `Anticip`, in microseconds. -/
def anticip : Int := 550

structure Iqmsg where
  msglist : List Imsg := []
  timerlist : List Imsg := []
  msgcount : Int := 0
  timercount : Int := 0
  count : Int := 0

/-! ## Additions -/

/-- The loop of an addition: before the first timer that ends later, or at the end. -/
def insertTimer (msg : Imsg) : List Imsg → List Imsg
  | [] => [msg]
  | cur :: rest =>
    if cmpTime cur.stop msg.stop > 0 then msg :: cur :: rest else cur :: insertTimer msg rest

variable (iq : Iqmsg)

/-- `__MsgAdd`, which returns the number of timers, or that of messages. -/
def msgAdd (msg : Imsg) : Int × Iqmsg :=
  if msg.imTimer || msg.imDelayed then
    let iq :=
      { iq with
        timerlist :=
          match iq.timerlist.getLast? with
          | some last =>
            if cmpTime last.stop msg.stop > 0 then insertTimer msg iq.timerlist
            else iq.timerlist ++ [msg]
          | none => [msg]
        timercount := iq.timercount + 1
        count := iq.count + 1 }
    (iq.timercount, iq)
  else
    let iq :=
      { iq with
        msglist := iq.msglist ++ [msg]
        msgcount := iq.msgcount + 1
        count := iq.count + 1 }
    (iq.msgcount, iq)

/-- The message that `rtl_imsgAddDelayed` adds. -/
def Imsg.delay (msg : Imsg) (delta : Int) (clock : Clock) : Imsg :=
  { msg with
    imDelayed := true
    imEnd := (clock.after delta).1
    imEndns := (clock.after delta).2
    imDiffms := delta }

/-- `rtl_imsgAddDelayed` -/
def imsgAddDelayed (msg : Imsg) (delta : Int) (clock : Clock) : Int × Iqmsg :=
  msgAdd iq (msg.delay delta clock)

/-! ## Gets -/

/-- A timer that a get takes at this time, `Anticip` before its end at the earliest. -/
def due (clock : Clock) (msg : Imsg) : Bool :=
  cmpTime (clock.now, clock.nowns) msg.stop ≥ -(anticip * 1000)

/-- `list_del`, from the timers. -/
def delTimer (msg : Imsg) : Iqmsg :=
  { iq with
    timerlist := iq.timerlist.eraseP fun cur => cur.address = msg.address
    timercount := iq.timercount - 1
    count := iq.count - 1 }

/-- `list_del`, from the messages. -/
def delMsg (msg : Imsg) : Iqmsg :=
  { iq with
    msglist := iq.msglist.eraseP fun cur => cur.address = msg.address
    msgcount := iq.msgcount - 1
    count := iq.count - 1 }

/-- The loop of a get over the timers. -/
def getTimer (clock : Clock) : List Imsg → Iqmsg → Option Imsg × Iqmsg
  | [], iq => (none, iq)
  | msg :: rest, iq =>
    if due clock msg then
      let iq := delTimer iq msg
      let msg := { msg with
        imDiffms := (cmpTime (clock.now, clock.nowns) msg.stop).tdiv 1000000 }
      if msg.imDelayed = false then (some msg, iq)
      else
        getTimer clock rest (msgAdd iq { msg with imTimer := false, imDelayed := false }).2
    else getTimer clock rest iq

/-- The first message. -/
def getMsg : Option Imsg × Iqmsg :=
  match iq.msglist with
  | [] => (none, iq)
  | msg :: rest =>
    (some msg, { iq with msglist := rest, msgcount := iq.msgcount - 1, count := iq.count - 1 })

def IMSG_TIMER : Int := 1
def IMSG_BOTH : Int := 2

def msgGet (mode : Int) (clock : Clock) : Option Imsg × Iqmsg :=
  if mode = IMSG_TIMER ∨ mode = IMSG_BOTH then
    match getTimer clock iq.timerlist iq with
    | (some msg, iq) => (some msg, iq)
    | (none, iq) => if mode = IMSG_TIMER then (none, iq) else getMsg iq
  else getMsg iq

/-! ## Removals

Each returns the messages that it frees; the function of the source returns their number. -/

/-- Take the messages of a kind off the list of messages. -/
def removeMsgs (p : Imsg → Bool) (iq : Iqmsg) : List Imsg × Iqmsg :=
  (iq.msglist.filter p,
    { iq with
      msglist := iq.msglist.filter fun m => !p m
      msgcount := iq.msgcount - (iq.msglist.filter p).length
      count := iq.count - (iq.msglist.filter p).length })

/-- Take the messages of a kind off the list of timers. -/
def removeTimers (p : Imsg → Bool) (iq : Iqmsg) : List Imsg × Iqmsg :=
  (iq.timerlist.filter p,
    { iq with
      timerlist := iq.timerlist.filter fun m => !p m
      timercount := iq.timercount - (iq.timerlist.filter p).length
      count := iq.count - (iq.timerlist.filter p).length })

/-- `rtl_imsgRemoveToType`, where -1 is any class or any type. -/
def imsgRemoveToType (dest : Nat) (imClass imType : Int) : List Imsg × Iqmsg :=
  let p := fun m : Imsg =>
    m.imTo = dest && (imClass = -1 || m.imClass = imClass) && (imType = -1 || m.imType = imType)
  let (freed, iq) := removeMsgs p iq
  let (freed', iq) := removeTimers p iq
  (freed ++ freed', iq)

/-- `rtl_imsgRemoveTo` -/
def imsgRemoveTo (dest : Nat) : List Imsg × Iqmsg := imsgRemoveToType iq dest (-1) (-1)

/-- `rtl_imsgRemoveAll` -/
def imsgRemoveAll : List Imsg × Iqmsg :=
  let (freed, iq) := removeMsgs (fun _ => true) iq
  let (freed', iq) := removeTimers (fun _ => true) iq
  (freed ++ freed', iq)

/-- `rtl_imsgRemove` of a message that is not freed. -/
def imsgRemove (rmv : Imsg) : List Imsg × Iqmsg :=
  if rmv.imTimer || rmv.imDelayed then
    if iq.timerlist.any fun m => m.address = rmv.address then ([rmv], delTimer iq rmv)
    else ([], iq)
  else
    if iq.msglist.any fun m => m.address = rmv.address then ([rmv], delMsg iq rmv) else ([], iq)

/-- `rtl_imsgFastRemove` of a message of the queue: it leaves the list that it is in, but it is its
flags that say which count goes down. -/
def imsgFastRemove (rmv : Imsg) : List Imsg × Iqmsg :=
  let iq :=
    { iq with
      msglist := iq.msglist.eraseP fun m => m.address = rmv.address
      timerlist := iq.timerlist.eraseP fun m => m.address = rmv.address }
  if rmv.imTimer || rmv.imDelayed then
    ([rmv], { iq with timercount := iq.timercount - 1, count := iq.count - 1 })
  else ([rmv], { iq with msgcount := iq.msgcount - 1, count := iq.count - 1 })

/-! ## Runs -/

/-- A time, in nanoseconds. -/
def nanoseconds (t : Int × Int) : Int := t.1 * 1000000000 + t.2

/-- The time of a clock, in nanoseconds. -/
def Clock.time (clock : Clock) : Int := nanoseconds (clock.now, clock.nowns)

/-- The clock gives less than a second of nanoseconds. -/
def Clock.Valid (clock : Clock) : Prop := 0 ≤ clock.nowns ∧ clock.nowns < 1000000000

instance (clock : Clock) : Decidable clock.Valid := inferInstanceAs (Decidable (_ ∧ _))

/-- The anticipation window, in nanoseconds. -/
def window : Int := 550000

/-- What is known of the message that was added last at an address: its rank among the additions,
whether it is delayed, its end, and whether it was within the window of its end at a get of timers
since. -/
structure Track where
  rank : Nat
  delayed : Bool
  stop : Int × Int
  expired : Bool

/-- A queue, and what became of the messages, by address: those added, those that entered the list
of messages, those returned, those returned as ordinary messages, and those freed, in order. -/
structure ImsgRun where
  iq : Iqmsg := {}
  added : List Nat := []
  entered : List Nat := []
  returned : List Nat := []
  ordinary : List Nat := []
  freed : List Nat := []
  track : Nat → Track := fun _ => ⟨0, false, (0, 0), false⟩

inductive ImsgEvent
  | add (msg : Imsg)
  | addTimer (address : Nat) (imClass imType delta : Int) (imTo : Nat) (clock : Clock)
  | addDelayed (msg : Imsg) (delta : Int) (clock : Clock)
  | get (mode : Int) (clock : Clock)
  | remove (rmv : Imsg)
  | fastRemove (rmv : Imsg)
  | removeToType (dest : Nat) (imClass imType : Int)
  | removeTo (dest : Nat)
  | removeAll

/-- The messages of a queue. -/
def Iqmsg.all : List Imsg := iq.msglist ++ iq.timerlist

/-- The addresses of the messages of a queue. -/
def Iqmsg.addresses : List Nat := iq.all.map Imsg.address

/-- The events of a queue: what is added is not in it, what is removed is a message of it, or, when
it is looked for, one that is not in it; the nanoseconds are less than a second. -/
def ImsgEvent.Valid : ImsgEvent → Prop
  | .add msg => msg.address ∉ iq.addresses ∧ 0 ≤ msg.imEndns ∧ msg.imEndns < 1000000000
  | .addTimer address _ _ delta _ clock => address ∉ iq.addresses ∧ 0 ≤ delta ∧ clock.Valid
  | .addDelayed msg delta clock => msg.address ∉ iq.addresses ∧ 0 ≤ delta ∧ clock.Valid
  | .get _ clock => clock.Valid
  | .remove rmv => rmv.address ∈ iq.addresses → rmv ∈ iq.all
  | .fastRemove rmv => rmv ∈ iq.all
  | .removeToType _ _ _ => True
  | .removeTo _ => True
  | .removeAll => True

instance (iq : Iqmsg) : DecidablePred (ImsgEvent.Valid iq)
  | .add _ | .addTimer .. | .addDelayed .. => inferInstanceAs (Decidable (_ ∧ _))
  | .get _ clock => inferInstanceAs (Decidable clock.Valid)
  | .remove _ => inferInstanceAs (Decidable (_ → _))
  | .fastRemove _ => inferInstanceAs (Decidable (_ ∈ _))
  | .removeToType .. | .removeTo _ | .removeAll => inferInstanceAs (Decidable True)

namespace ImsgRun

variable (s : ImsgRun)

/-- A run after the addition of `msg`, which leaves the queue `iq`. -/
def afterAdd (msg : Imsg) (iq : Iqmsg) : ImsgRun :=
  { s with
    iq := iq
    added := s.added ++ [msg.address]
    entered := if msg.imTimer || msg.imDelayed then s.entered else s.entered ++ [msg.address]
    track := Function.update s.track msg.address
      ⟨s.added.length, msg.imDelayed, msg.stop, false⟩ }

/-- The delayed messages that a get took off the timers. -/
def moved (iq : Iqmsg) : List Imsg :=
  s.iq.timerlist.filter fun m => m.imDelayed && m.address ∉ iq.timerlist.map Imsg.address

/-- A run after a get: the delayed messages that left the timers have entered the messages. -/
def afterGet (mode : Int) (clock : Clock) : ImsgRun :=
  let (ret, iq) := msgGet s.iq mode clock
  { s with
    iq := iq
    -- a get moves what has expired before it takes a message
    entered := s.entered ++ (s.moved iq).map Imsg.address
    returned := s.returned ++ ret.toList.map Imsg.address
    ordinary := s.ordinary ++ (ret.toList.filter fun m => !m.imTimer).map Imsg.address
    track := fun address =>
      { s.track address with
        -- noted when the get looked at the timers after the time of the message
        expired := (s.track address).expired ||
          (mode = IMSG_TIMER ∨ mode = IMSG_BOTH) ∧
            nanoseconds (s.track address).stop - window ≤ clock.time } }

/-- A run after a removal. -/
def afterRemove (result : List Imsg × Iqmsg) : ImsgRun :=
  { s with iq := result.2, freed := s.freed ++ result.1.map Imsg.address }

/-- A run after an event. -/
def after : ImsgEvent → ImsgRun
  | .add msg => s.afterAdd msg (msgAdd s.iq msg).2
  | .addTimer address imClass imType delta imTo clock =>
    let msg := timerAlloc address imClass imType delta imTo clock
    s.afterAdd msg (msgAdd s.iq msg).2
  | .addDelayed msg delta clock =>
    s.afterAdd (msg.delay delta clock) (imsgAddDelayed s.iq msg delta clock).2
  | .get mode clock => s.afterGet mode clock
  | .remove rmv => s.afterRemove (imsgRemove s.iq rmv)
  | .fastRemove rmv => s.afterRemove (imsgFastRemove s.iq rmv)
  | .removeToType dest imClass imType => s.afterRemove (imsgRemoveToType s.iq dest imClass imType)
  | .removeTo dest => s.afterRemove (imsgRemoveTo s.iq dest)
  | .removeAll => s.afterRemove (imsgRemoveAll s.iq)

end ImsgRun

/-- One event. -/
def imsgStep (s : ImsgRun) (e : ImsgEvent) : Option ImsgRun :=
  if e.Valid s.iq then some (s.after e) else none

end Ong.Rtbase
