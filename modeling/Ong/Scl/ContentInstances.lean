import Ong.Scl.SclTransaction

/-!
# The collection of content instances

A creation first queues the new instances, then the deletions that the limits of the container ask
for: by number, then by size, in pages of four.
-/

namespace Ong.Scl

open M2M

/-- Why a request does nothing: the two status codes, another exception, or a loop that never
ends. -/
inductive Failure
  | badRequest | conflict | exception | endless
  deriving DecidableEq

namespace ContentInstances

/-- The ids that a representation may not give. -/
def reservedKeywords : List String :=
  ["creationTime", "lastModifiedTime", "currentNrOfInstances", "currentByteSize",
    "contentInstanceCollection", "latest", "oldest", "subscriptionsReference", "subscriptions"]

/-- The checks on the id of a new instance. -/
def ValidId (id : String) : Prop := id ≠ "" ∧ id ∉ reservedKeywords ∧ '/' ∉ id.toList

instance (id : String) : Decidable (ValidId id) := inferInstanceAs (Decidable (_ ∧ _))

def childPath (path : Path) (id : String) : Path := path ++ [id]

variable (storage : Storage) (path : Path)

/-! ## The limits of the container -/

/-- The variables of `checkConditions`: the new number of instances and the new size, the instances
to delete, and the creation time of the last of them. -/
structure Trimming where
  currentNbOfInstances : Int
  currentByteSize : Int
  deleted : List String := []
  lastCiCreationTimeToDelete : Option Int := none

/-- The condition of the searches that follow the first one. -/
def isAfter (lastCiCreationTimeToDelete : Option Int) (ci : ContentInstance) : Bool :=
  match lastCiCreationTimeToDelete with
  | none => true
  | some time => time < ci.creationTime

/-- `Check max nb of instances`. -/
def trimNb (maxNumberOfInstances : Int) (t : Trimming) : Trimming :=
  if maxNumberOfInstances > 0 ∧ t.currentNbOfInstances > maxNumberOfInstances then
    let found := search storage path (fun _ => true)
      (toInt (t.currentNbOfInstances - maxNumberOfInstances))
    { currentNbOfInstances := maxNumberOfInstances
      currentByteSize := found.foldl (fun size c => toLong (size - c.2.contentSize)) t.currentByteSize
      deleted := t.deleted ++ found.map Prod.fst
      lastCiCreationTimeToDelete := found.getLast?.map fun c => c.2.creationTime }
  else t

/-- One page of the loop on the size: it ends with the first instance that brings the size under the
limit. -/
def trimPage (maxByteSize : Int) : List (String × ContentInstance) → Trimming → Trimming
  | [], t => t
  | (name, ci) :: page, t =>
    let t :=
      { t with
        currentByteSize := toLong (t.currentByteSize - ci.contentSize)
        currentNbOfInstances := toLong (t.currentNbOfInstances - 1)
        deleted := t.deleted ++ [name] }
    if page = [] ∨ t.currentByteSize ≤ maxByteSize
    then { t with lastCiCreationTimeToDelete := some ci.creationTime }
    else trimPage maxByteSize page t

/-- `Check max byte size`, of at most `fuel` pages; `none` when the loop does not end.  Each page
moves on in the creation times, so there are not more pages than instances. -/
def trimBytes (maxByteSize : Int) (fuel : Nat) (t : Trimming) : Option Trimming :=
  if t.currentByteSize ≤ maxByteSize then some t
  else
    match fuel with
    | 0 => none
    | fuel + 1 =>
      match search storage path (isAfter t.lastCiCreationTimeToDelete) 4 with
      | [] => none
      | page => trimBytes maxByteSize fuel (trimPage maxByteSize page t)

variable (c : Container)

/-- The two trimmings. -/
def trim (t : Trimming) : Option Trimming :=
  let t := trimNb storage path (c.maxNrOfInstances.getD (-1)) t
  let maxByteSize := c.maxByteSize.getD (-1)
  if maxByteSize > 0 then trimBytes storage path maxByteSize ((childInstances storage path).length + 1) t
  else some t

/-- `Check max instance age`: the timer is for the oldest of the new instances and of those that the
search finds. -/
def ageOps (last : Option (Int × String)) (now : Int) (t : Trimming) :
    List TransientOp :=
  let maxInstanceAge := c.maxInstanceAge.getD (-1)
  match last with
  | some (lastDate, lastId) =>
    if maxInstanceAge > 0 then
      match search storage path (isAfter t.lastCiCreationTimeToDelete) 1 with
      | (_, lastCi) :: _ =>
        if lastCi.creationTime > lastDate
        then [.cisChildCreate ⟨path, lastDate, lastId, now, maxInstanceAge⟩]
        else [.cisChildCreate ⟨path, lastCi.creationTime, lastCi.id, now, maxInstanceAge⟩]
      | [] => [.cisChildCreate ⟨path, lastDate, lastId, now, maxInstanceAge⟩]
    else []
  | none => []

/-- The checks of `checkConditions` before it trims; `last` is the date and the id of the oldest new
instance. -/
def refusal (last : Option (Int × String)) (ciNbOfInstances ciContentSize now : Int) :
    Option Failure :=
  let maxNumberOfInstances := c.maxNrOfInstances.getD (-1)
  let maxByteSize := c.maxByteSize.getD (-1)
  let maxInstanceAge := c.maxInstanceAge.getD (-1)
  if maxNumberOfInstances > 0 ∧ ciNbOfInstances > maxNumberOfInstances then some .badRequest
  else if maxByteSize > 0 ∧ ciContentSize > maxByteSize then some .badRequest
  else if maxInstanceAge > 0 then
    match last with
    -- no instance to create: the source dereferences a null date
    | none => some .exception
    | some (lastDate, _) =>
      if Volatile.instanceAgeDelay lastDate maxInstanceAge now ≤ 0 then some .badRequest else none
  else none

variable (r : ContentInstances)

/-- `checkConditions`: the new attributes of the collection, and what is added to the
transaction. -/
def checkConditions (last : Option (Int × String))
    (ciNbOfInstances ciContentSize now : Int) :
    Except Failure (ContentInstances × SclTransaction) :=
  match refusal c last ciNbOfInstances ciContentSize now with
  | some failure => .error failure
  | none =>
    match trim storage path c
      { currentNbOfInstances := toLong (r.currentNrOfInstances + ciNbOfInstances)
        currentByteSize := toLong (r.currentByteSize + ciContentSize) } with
    -- the loop that trims finds nothing more to delete and goes on
    | none => .error .endless
    | some t =>
      .ok ({ r with
          currentNrOfInstances := t.currentNbOfInstances
          currentByteSize := t.currentByteSize },
        { modifications := t.deleted.map fun name => .delete (childPath path name)
          transientOps := ageOps storage path c last now t })

/-! ## Creations -/

variable (instances : List ContentInstance)

/-- The transaction that creates `instances`. -/
def createTransaction (last : Option (Int × String))
    (ciNbOfInstances ciContentSize now : Int) : Except Failure SclTransaction :=
  match storage.lookup path.dropLast, storage.lookup path with
  | some (.container c), some (.contentInstances r) =>
    (checkConditions storage path c r last ciNbOfInstances ciContentSize now).map fun (r, t) =>
      { modifications :=
          instances.map (fun ci => .create (childPath path ci.id) (.contentInstance ci)) ++
            t.modifications ++
            [.update path (.contentInstances
              { r with latest := instances.getLast?.map fun ci => childPath path ci.id })]
        transientOps := t.transientOps }
  | _, _ => .error .exception

/-- The checks that follow those on the id: there is no such instance, and the content, of `length`
bytes, is not empty. -/
def newInstance (length : Int) (ci : ContentInstance) : Except Failure ContentInstance :=
  match storage.lookup (childPath path ci.id) with
  | some _ => .error .conflict
  | none => if length ≤ 0 then .error .badRequest else .ok ci

/-- `date` is the current time in GMT, as `formatDateTime` writes it. -/
def doCreateIndicationFromContentInstance (id : Option String) (date : String) (contentSize now : Int) :
    Except Failure SclTransaction :=
  let id := id.getD date
  if ValidId id then
    (newInstance storage path contentSize ⟨id, now, contentSize⟩).bind fun ci =>
      createTransaction storage path [ci] (some (now, id)) 1 contentSize now
  else .error .badRequest

/-- `date` is the current time, as `formatDateTime` writes it. -/
def doCreateIndicationFromBytes (date : String) (contentSize now : Int) :
    Except Failure SclTransaction :=
  (newInstance storage path contentSize ⟨date, now, contentSize⟩).bind fun ci =>
    createTransaction storage path [ci] (some (now, date)) 1 contentSize now

/-- A representation in a notify: its attributes, and the length of its content. -/
structure External where
  id : Option String
  creationTime : Int
  contentSize : Int
  length : Int

/-- The instance of a representation. -/
def External.contentInstance (e : External) : Except Failure ContentInstance :=
  match e.id with
  | none => .error .badRequest
  | some id =>
    if ValidId id then newInstance storage path e.length ⟨id, e.creationTime, e.contentSize⟩
    else .error .badRequest

def doCreateIndicationFromExternalContentInstance (e : External) (now : Int) :
    Except Failure SclTransaction :=
  (e.contentInstance storage path).bind fun ci =>
    createTransaction storage path [ci] (some (ci.creationTime, ci.id)) 1 ci.contentSize now

/-- The date and the id of the first of the oldest instances. -/
def oldest : Option (Int × String) :=
  instances.foldl (fun last ci =>
    match last with
    | none => some (ci.creationTime, ci.id)
    | some (lastDate, lastId) =>
      if lastDate > ci.creationTime then some (ci.creationTime, ci.id)
      else some (lastDate, lastId)) none

def doCreateIndicationFromExternalContentInstances (es : List External) (now : Int) :
    Except Failure SclTransaction :=
  (es.mapM fun e : External => e.contentInstance storage path).bind fun instances =>
    createTransaction storage path instances (oldest instances) instances.length
      (instances.foldl (fun size ci => toLong (size + ci.contentSize)) 0) now

/-! ## Deletions -/

/-- The attributes of the collection without an instance. -/
def removeInstance (ci : ContentInstance) : ContentInstances :=
  { r with
    currentNrOfInstances := toLong (r.currentNrOfInstances - 1)
    currentByteSize := toLong (r.currentByteSize - ci.contentSize) }

/-- `deleteChildResource`, then the deletion of the instance. -/
def deleteTransaction (id : String) (ci : ContentInstance) (now : Int) :
    SclTransaction where
  modifications := [.update path (.contentInstances (removeInstance r ci)), .delete (childPath path id)]
  transientOps := [.cisChildDelete ⟨path, ci, now⟩]

/-- The transaction of `timeout`. -/
def timeoutTransaction (id : String) (ci : ContentInstance) (now : Int) :
    SclTransaction where
  modifications := [.delete (childPath path id), .update path (.contentInstances (removeInstance r ci))]
  -- given the path of the instance, where the deletion on request gives that of the collection
  transientOps := [.cisChildDelete ⟨childPath path id, ci, now⟩]

/-! ## Starting again -/

/-- `reload`, in the transaction of the start; `none` when it throws. -/
def reload (now : Int) (fault : Bool) (v : Volatile) : Option (SclTransaction × Volatile) :=
  match storage.lookup path.dropLast, storage.lookup path with
  | some (.container c), some (.contentInstances r) =>
    let maxInstanceAge := c.maxInstanceAge.getD (-1)
    if maxInstanceAge > 0 then
      let limitDate := toLong (now - maxInstanceAge * 1000)
      let expired := search storage path (fun ci => ci.creationTime < limitDate) 4
      let t : SclTransaction :=
        { modifications :=
            expired.map (fun c => .delete (childPath path c.1)) ++
              [.update path (.contentInstances
                { r with
                  currentNrOfInstances :=
                    expired.foldl (fun nb _ => toLong (nb - 1)) r.currentNrOfInstances
                  -- the size of the collection, where that of the instance is meant
                  currentByteSize :=
                    expired.foldl (fun size _ => toLong (size - r.currentByteSize))
                      r.currentByteSize })] }
      match search storage path (fun ci => limitDate < ci.creationTime) 1 with
      | [] => some (t, v)
      | (_, lastCi) :: _ =>
        match fault, v.startResourceTimer
          (Volatile.instanceAgeDelay lastCi.creationTime maxInstanceAge now) now path with
        | false, some (timerId, v) =>
          some (t, { v with
            instanceAgeTimer := v.instanceAgeTimer.insert path timerId
            instanceAgeId := v.instanceAgeId.insert path lastCi.id })
        | _, _ => none
    else some ({}, v)
  | _, _ => none

end ContentInstances

/-! ## Runs -/

open ContentInstances

inductive ContentInstancesEvent
  | createFromContentInstance (id : Option String) (date : String) (contentSize now : Int)
      (faults : Faults)
  | createFromBytes (date : String) (contentSize now : Int) (faults : Faults)
  | createFromExternal (e : External) (now : Int) (faults : Faults)
  | createFromExternals (es : List External) (now : Int) (faults : Faults)
  | delete (id : String) (now : Int) (faults : Faults)
  | timeout (timer : Nat) (now : Int) (faults : Faults)
  | start (now : Int) (fault : Bool) (faults : Faults)

section Step

variable (config : SclConfig) (it : IterationOrder) (path : Path)

/-- A creation; `none` when it never returns. -/
def createContentInstances (t : Except Failure SclTransaction) (faults : Faults) (w : World) :
    Option World :=
  match t with
  | .ok t => some (SclTransaction.run config it faults t w)
  | .error .endless => none
  | .error _ => some w

/-- The deletion on request of an instance that is stored. -/
def deleteContentInstance (id : String) (now : Int) (faults : Faults) (w : World) : World :=
  match w.storage.lookup (childPath path id), w.storage.lookup path with
  | some (.contentInstance ci), some (.contentInstances r) =>
    SclTransaction.run config it faults (deleteTransaction path r id ci now) w
  | _, _ => w

/-- `timeout`, when an armed timer of the collection fires; `none` when there is no such timer. -/
def timeoutContentInstances (timer : Nat) (now : Int) (faults : Faults) (w : World) : Option World :=
  if ∃ t ∈ w.volatile.timers.armed, t.id = timer ∧ t.path = path ∧ t.due ≤ now then
    let id := (w.volatile.instanceAgeId.lookup path).getD "null"
    let w := { w with volatile := w.volatile.cancelTimer (some timer) }
    match w.storage.lookup (childPath path id), w.storage.lookup path with
    | some (.contentInstance ci), some (.contentInstances r) =>
      some (SclTransaction.run config it faults (timeoutTransaction path r id ci now) w)
    | _, _ => some w
  else none

/-- What the start of the SCL does for the collection, without any volatile state; `none` when the
reload throws: then the SCL does not start. -/
def startContentInstances (now : Int) (fault : Bool) (faults : Faults) (w : World) : Option World :=
  (reload w.storage path now fault .initial).map fun (t, v) =>
    SclTransaction.run config it faults t ⟨w.storage, v⟩

/-- One event; `none` when it cannot happen or never ends. -/
def contentInstancesStep (w : World) : ContentInstancesEvent → Option World
  | .createFromContentInstance id date contentSize now faults =>
    createContentInstances config it
      (doCreateIndicationFromContentInstance w.storage path id date contentSize now) faults w
  | .createFromBytes date contentSize now faults =>
    createContentInstances config it
      (doCreateIndicationFromBytes w.storage path date contentSize now) faults w
  | .createFromExternal e now faults =>
    createContentInstances config it
      (doCreateIndicationFromExternalContentInstance w.storage path e now) faults w
  | .createFromExternals es now faults =>
    createContentInstances config it
      (doCreateIndicationFromExternalContentInstances w.storage path es now) faults w
  | .delete id now faults => some (deleteContentInstance config it path id now faults w)
  | .timeout timer now faults => timeoutContentInstances config it path timer now faults w
  | .start now fault faults => startContentInstances config it path now fault faults w

end Step

end Ong.Scl
