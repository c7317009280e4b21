import Ong.Scl.SclTransaction

/-!
# The m2mPocs of an scl
-/

namespace Ong.Scl

open M2M

def m2mPocsPath (sclPath : Path) : Path := sclPath ++ ["m2mPocs"]

def m2mPocPath (sclPath : Path) (id : String) : Path := m2mPocsPath sclPath ++ [id]

/-- The ids that a representation may not give. -/
def M2MPocs.reservedKeywords : List String :=
  ["creationTime", "lastModifiedTime", "m2mPocCollection"]

/-- The checks on the id of a new m2mPoc. -/
def M2MPocs.ValidId (id : String) : Prop :=
  id ≠ "" ∧ id ∉ reservedKeywords ∧ '/' ∉ id.toList

instance (id : String) : Decidable (M2MPocs.ValidId id) := inferInstanceAs (Decidable (_ ∧ _))

namespace M2MPoc

variable (config : SclConfig) (it : IterationOrder) (sclPath : Path) (id : String)

variable (onlineStatus : Option OnlineStatus)

/-- The status of a representation, online when it gives none. -/
def newOnlineStatus : OnlineStatus :=
  onlineStatus.getD .online

variable (expirationTime : Option Int)

def createTransaction :
    SclTransaction where
  modifications :=
    [.create (m2mPocPath sclPath id) (.m2mPoc ⟨newOnlineStatus onlineStatus, expirationTime⟩),
      .update (m2mPocsPath sclPath) .collection]
  transientOps := [.m2mPoc ⟨m2mPocsPath sclPath, none, some (newOnlineStatus onlineStatus)⟩]

variable (faults : Faults)

variable (w : World)

/-- `M2MPocs.doCreateIndication`. -/
def create : World :=
  if M2MPocs.ValidId id then
    match w.storage.lookup (m2mPocPath sclPath id) with
    | some _ => w
    | none =>
      SclTransaction.run config it faults
        (createTransaction sclPath id onlineStatus expirationTime) w
  else w

def updateTransaction (resource : M2MPoc) (onlineStatus : Option OnlineStatus)
    (expirationTime : Option Int) : SclTransaction where
  modifications :=
    [.update (m2mPocPath sclPath id) (.m2mPoc ⟨newOnlineStatus onlineStatus, expirationTime⟩)]
  transientOps :=
    [.m2mPoc ⟨m2mPocsPath sclPath, some resource.onlineStatus, some (newOnlineStatus onlineStatus)⟩]

/-- `updateResource`, for an m2mPoc that is stored. -/
def update : World :=
  match w.storage.lookup (m2mPocPath sclPath id) with
  | some (.m2mPoc resource) =>
    SclTransaction.run config it faults
      (updateTransaction sclPath id resource onlineStatus expirationTime) w
  | _ => w

/-- What `deleteResource` adds to a transaction. -/
def deleteResource (path : Path) (resource : M2MPoc) (t : SclTransaction) : SclTransaction where
  modifications := t.modifications ++ [.delete path]
  transientOps := t.transientOps ++ [.m2mPoc ⟨path.dropLast, some resource.onlineStatus, none⟩]

/-- `deleteChildResource` of the collection, then `deleteResource`. -/
def deleteTransaction (resource : M2MPoc) : SclTransaction :=
  deleteResource (m2mPocPath sclPath id) resource
    { modifications := [.update (m2mPocsPath sclPath) .collection] }

/-- The deletion on request of an m2mPoc that is stored. -/
def delete : World :=
  match w.storage.lookup (m2mPocPath sclPath id) with
  | some (.m2mPoc resource) =>
    SclTransaction.run config it faults (deleteTransaction sclPath id resource) w
  | _ => w

/-- `timeout`: the expiration of an m2mPoc that is stored. -/
def timeout : World :=
  match w.storage.lookup (m2mPocPath sclPath id) with
  | some (.m2mPoc resource) =>
    SclTransaction.run config it faults (deleteResource (m2mPocPath sclPath id) resource {}) w
  | _ => w

/-! ## Starting again -/

/-- Whether `reload` finds that the m2mPoc is expired. -/
def Expired (now : Int) (resource : M2MPoc) : Prop :=
  ∃ expirationTime ∈ resource.expirationTime, 0 < expirationTime ∧ expirationTime ≤ now

instance (now : Int) (resource : M2MPoc) : Decidable (Expired now resource) :=
  match h : resource.expirationTime with
  | none => isFalse (by simp [Expired, h])
  | some expirationTime =>
    decidable_of_iff (0 < expirationTime ∧ expirationTime ≤ now) (by simp [Expired, h])

/-- `reload`, in the transaction of the start; `none` when it throws. -/
def reload (now : Int) (storage : Storage) (path : Path) (resource : M2MPoc) (fault : Bool)
    (t : SclTransaction) (v : Volatile) : Option (SclTransaction × Volatile) :=
  if Expired now resource then some (deleteResource path resource t, v)
  else
    let (r, pocsManagers) := v.pocsManagers.getOrCreate path.dropLast {}
    let (m, scl) :=
      (pocsManagers.get r).m2mPocOnlineStatusChanged none (some resource.onlineStatus)
    let v := { v with pocsManagers := pocsManagers.set r m }
    match scl with
    | none => some (t, v)
    | some scl =>
      (updateFromM2MPocs storage path.dropLast.dropLast fault scl).map fun update =>
        ({ t with modifications := t.modifications ++ [update] }, v)

end M2MPoc

namespace M2MPocs

/-- The paths of the m2mPocs that are stored. -/
def paths (storage : Storage) : List Path :=
  storage.keys.filter fun p => match storage.lookup p with
    | some (.m2mPoc _) => true
    | _ => false

/-- `restoreResources`, for the m2mPocs at these paths; `faults` says which reads of an scl fail. -/
def restoreResources (now : Int) (storage : Storage) :
    List Path → List Bool → SclTransaction → Volatile → Option (SclTransaction × Volatile)
  | [], _, t, v => some (t, v)
  | path :: order, faults, t, v =>
    match storage.lookup path with
    | some (.m2mPoc resource) =>
      match M2MPoc.reload now storage path resource (faults.headD false) t v with
      | none => none
      | some (t, v) => restoreResources now storage order faults.tail t v
    | _ => none

/-- What `SclManagerImpl.start` does for the m2mPocs, in the order in which the search gives them:
they are reloaded without any volatile state, then the transaction is executed.  `none` when a
reload throws: then the SCL does not start. -/
def start (config : SclConfig) (it : IterationOrder) (now : Int) (order : List Path)
    (reads : List Bool) (faults : Faults) (w : World) : Option World :=
  if order.Perm (paths w.storage) then
    (restoreResources now w.storage order reads {} .initial).map fun (t, v) =>
      SclTransaction.run config it faults t ⟨w.storage, v⟩
  else none

end M2MPocs

inductive M2MPocEvent
  | create (id : String) (onlineStatus : Option OnlineStatus) (expirationTime : Option Int)
      (faults : Faults)
  | update (id : String) (onlineStatus : Option OnlineStatus) (expirationTime : Option Int)
      (faults : Faults)
  | delete (id : String) (faults : Faults)
  | timeout (id : String) (faults : Faults)
  | start (now : Int) (order : List Path) (reads : List Bool) (faults : Faults)

/-- One event; `none` when it cannot happen. -/
def m2mPocStep (config : SclConfig) (it : IterationOrder) (sclPath : Path) (w : World) :
    M2MPocEvent → Option World
  | .create id onlineStatus expirationTime faults =>
    some (M2MPoc.create config it sclPath id onlineStatus expirationTime faults w)
  | .update id onlineStatus expirationTime faults =>
    some (M2MPoc.update config it sclPath id onlineStatus expirationTime faults w)
  | .delete id faults => some (M2MPoc.delete config it sclPath id faults w)
  | .timeout id faults => some (M2MPoc.timeout config it sclPath id faults w)
  | .start now order reads faults => M2MPocs.start config it now order reads faults w

end Ong.Scl
