import Ong.StorageDriver.SqliteDriver

/-!
# The storage driver

`StorageRequestDriverExecutorImpl`: each operation is a call of the native driver, in a transaction
of its own unless it is told that there is one, and its result decides between an exception and a
return.
-/

namespace Ong.StorageDriver

/-- A value of a search attribute; a date is given by its text.  `other` stands for the objects
whose conversion throws. -/
inductive AttributeValue
  | string (value : Text)
  | integer (value : Int)
  | date (value : Text)
  | other

/-- An element of a collection of search attributes. -/
inductive SearchAttribute
  | pair (first : Option Text) (second : AttributeValue)
  | other

def typeString : Int := 6

def typeInteger : Int := 7

def typeDate : Int := 8

def convertToInternalAttribute : SearchAttribute → Option InternalAttribute
  | .pair name (.string value) => some { name, stringValue := some value, type := typeString }
  | .pair name (.integer value) => some { name, intValue := value, type := typeInteger }
  | .pair name (.date value) => some { name, dateValue := some value, type := typeDate }
  | .pair _ .other => none
  | .other => none

/-- `none` when an exception is thrown. -/
def convertToInternalAttributes (searchAttributes : List SearchAttribute) :
    Option (List InternalAttribute) :=
  searchAttributes.mapM convertToInternalAttribute

/-- Whether an operation returns or throws. -/
inductive Outcome
  | success | error

namespace Driver

variable (faults : Faults)

/-- An operation between `beginTransaction` and the end of the transaction, whose results are not
looked at; nothing of it when `trans` is set. -/
def inTransaction (trans : Bool) (db : SqliteDB) (operation : SqliteDB → Outcome × SqliteDB) :
    Outcome × SqliteDB :=
  if trans then operation db
  else
    match operation (beginTransaction faults db).2 with
    | (.success, db) => (.success, (commitTransaction faults db).2)
    | (.error, db) => (.error, (rollbackTransaction faults db).2)

/-- The collection may be `null`. -/
def internalAttributes (searchAttributes : Option (List SearchAttribute)) :
    Option (List InternalAttribute) :=
  match searchAttributes with
  | none => some []
  | some searchAttributes => convertToInternalAttributes searchAttributes

def retrieve (fault : Option Failure) (db : SqliteDB) (fullPath : Text) : Option Content :=
  let xmlContent := sqliteRetrieve fault db fullPath
  if xmlContent.length = 0 then none else some xmlContent

variable (db : SqliteDB)

def create (fullPath : Text) (rawDocument : Content)
    (searchAttributes : Option (List SearchAttribute)) (trans : Bool) : Outcome × SqliteDB :=
  inTransaction faults trans db fun db =>
    match internalAttributes searchAttributes with
    | none => (.error, db)
    | some attrs =>
      let (sqlCode, db) := sqliteCreate faults db fullPath rawDocument attrs
      (if sqlCode ≠ 101 then .error else .success, db)

def update (fullPath : Text) (rawDocument : Content)
    (searchAttributes : Option (List SearchAttribute)) (trans : Bool) : Outcome × SqliteDB :=
  inTransaction faults trans db fun db =>
    match internalAttributes searchAttributes with
    | none => (.error, db)
    | some attrs =>
      let (numberOfAffectedRows, db) := sqliteUpdate faults db fullPath rawDocument attrs
      (if numberOfAffectedRows = 0 then .error else .success, db)

def delete (path : Text) (cascade : Int) (trans : Bool) : Outcome × SqliteDB :=
  inTransaction faults trans db fun db =>
    let (numberOfAffectedRows, db) := sqliteDelete faults db path cascade
    (if numberOfAffectedRows = 0 then .error else .success, db)

end Driver

/-! ## Sequences of operations -/

/-- The operations; the base path of a subtree is given without its final delimiter. -/
inductive Request
  | create (fullPath : Text) (content : Content) (searchAttributes : Option (List SearchAttribute))
  | update (fullPath : Text) (content : Content) (searchAttributes : Option (List SearchAttribute))
  | delete (fullPath : Text)
  | deleteSubtree (base : Text)

/-- An operation, with the statements of it that fail. -/
structure DriverEvent where
  request : Request
  faults : Faults := fun _ => none

def DriverEvent.run (e : DriverEvent) (db : SqliteDB) : Outcome × SqliteDB :=
  match e.request with
  | .create fullPath content searchAttributes =>
    Driver.create e.faults db fullPath content searchAttributes false
  | .update fullPath content searchAttributes =>
    Driver.update e.faults db fullPath content searchAttributes false
  | .delete fullPath => Driver.delete e.faults db fullPath cascadingNone false
  | .deleteSubtree base =>
    Driver.delete e.faults db (base ++ [pathDelimiter]) cascadingSubtree false

/-- The connection, and the operations so far with their outcomes, the last one first. -/
structure DriverState where
  db : SqliteDB
  history : List (Request × Outcome)

/-- A database that has just been made. -/
def DriverState.initial : DriverState := ⟨⟨⟨[], []⟩, none, 0⟩, []⟩

def driverStep (s : DriverState) (e : DriverEvent) : Option DriverState :=
  let (outcome, db) := e.run s.db
  some ⟨db, (e.request, outcome) :: s.history⟩

end Ong.StorageDriver
