import Mathlib.Data.List.DropRight
import Ong.Lib.Table
import Ong.StorageDriver.Glob

/-!
# The native SQLite driver

The tables `DOCUMENT` and `ATTRIBUTE`, and the functions that prepare, bind and step the SQL
statements on them.  Any statement may fail, and then leaves the tables as they are; the row
identifiers, the codes of SQLite and the numbers of rows go through the same results.

## Main results

* `fullPath_parseFullPath`: a path without a delimiter is under `/`, and the two columns are
  otherwise the path
-/

namespace Ong.StorageDriver

open List

def pathDelimiter : Char := '/'

def starChar : Char := '*'

/-- The content of a document, in bytes. -/
abbrev Content := List UInt8

/-! ## Paths -/

/-- The columns `PATH`, up to the last delimiter, and `NAME`. -/
def parseFullPath (fullPath : Text) : Text × Text :=
  if fullPath = [] then ([], fullPath)
  else if pathDelimiter ∈ fullPath then
    (fullPath.rdropWhile (· ≠ pathDelimiter), fullPath.rtakeWhile (· ≠ pathDelimiter))
  else ([pathDelimiter], fullPath)

/-- The path with a final `*`. -/
def preparePathWithStar (path : Text) : Text :=
  if path.getLast? = some starChar then path else path ++ [starChar]

/-- The path under which a document is found again: a name alone is under `/`. -/
def canonicalPath (fullPath : Text) : Text :=
  if fullPath = [] ∨ pathDelimiter ∈ fullPath then fullPath else pathDelimiter :: fullPath

/-- The two columns that a path is split into. -/
structure IsPathName (pathName : Text × Text) : Prop where
  name_free : pathDelimiter ∉ pathName.2
  path_last : (∃ dir, pathName.1 = dir ++ [pathDelimiter]) ∨ pathName.1 = [] ∧ pathName.2 = []

section Paths

variable {p q : Text} {pathName : Text × Text}

/-- The two parts of a path, joined again. -/
theorem fullPath_parseFullPath (p : Text) :
    (parseFullPath p).1 ++ (parseFullPath p).2 = canonicalPath p := by
  unfold parseFullPath canonicalPath
  by_cases hnil : p = []
  · rw [if_pos hnil, if_pos (.inl hnil)]
    rfl
  · rw [if_neg hnil]
    by_cases hmem : pathDelimiter ∈ p
    · rw [if_pos hmem, if_pos (.inr hmem)]
      exact rdropWhile_append_rtakeWhile
    · rw [if_neg hmem, if_neg (not_or.mpr ⟨hnil, hmem⟩)]
      rfl

theorem isPathName_parseFullPath (p : Text) : IsPathName (parseFullPath p) := by
  unfold parseFullPath
  split_ifs with hnil hmem
  · subst hnil
    exact ⟨not_mem_nil, .inr ⟨rfl, rfl⟩⟩
  · refine ⟨fun h => by simpa using mem_rtakeWhile_imp h, .inl ?_⟩
    have hne : p.rdropWhile (· ≠ pathDelimiter) ≠ [] := by
      rw [Ne, rdropWhile_eq_nil_iff]
      exact fun h => by simpa using h _ hmem
    have hlast := rdropWhile_last_not _ p hne
    refine ⟨(p.rdropWhile (· ≠ pathDelimiter)).dropLast, ?_⟩
    have hc : (p.rdropWhile (· ≠ pathDelimiter)).getLast hne = pathDelimiter := by simpa using hlast
    conv_lhs => rw [← dropLast_append_getLast hne, hc]
  · exact ⟨hmem, .inl ⟨[], rfl⟩⟩

theorem parseFullPath_fullPath (h : IsPathName pathName) :
    parseFullPath (pathName.1 ++ pathName.2) = pathName := by
  obtain ⟨path, name⟩ := pathName
  obtain ⟨hfree, ⟨dir, rfl⟩ | ⟨rfl, rfl⟩⟩ := h
  · have hne : dir ++ [pathDelimiter] ++ name ≠ [] := by simp
    have hmem : pathDelimiter ∈ dir ++ [pathDelimiter] ++ name := by simp
    have hname : ∀ c ∈ name.reverse, decide (c ≠ pathDelimiter) = true := by
      intro c hc
      simp only [decide_eq_true_eq]
      rintro rfl
      exact hfree (mem_reverse.mp hc)
    rw [parseFullPath, if_neg hne, if_pos hmem, Prod.mk.injEq]
    constructor
    · rw [rdropWhile, reverse_append, dropWhile_append_of_pos hname]
      simp
    · rw [rtakeWhile, reverse_append, takeWhile_append_of_pos hname]
      simp
  · rfl

theorem parseFullPath_canonicalPath (p : Text) :
    parseFullPath (canonicalPath p) = parseFullPath p := by
  rw [← fullPath_parseFullPath, parseFullPath_fullPath (isPathName_parseFullPath p)]

end Paths

/-! ## The tables -/

/-- The columns of a search attribute. -/
structure Attribute where
  name : Text
  stringValue : Option Text
  intValue : Int
  dateValue : Option Text
  attributeType : Int
  deriving DecidableEq

structure DocumentRow where
  id : Int
  path : Text
  name : Text
  content : Content

structure AttributeRow where
  documentId : Int
  columns : Attribute

/-- The columns of the unique index. -/
def DocumentRow.pathName (d : DocumentRow) : Text × Text := (d.path, d.name)

structure Tables where
  documents : List DocumentRow
  attributes : List AttributeRow

/-- The row that `WHERE PATH=? AND NAME=?` selects. -/
def Tables.find (t : Tables) (fullPath : Text) : Option DocumentRow :=
  Table.find DocumentRow.pathName (parseFullPath fullPath) t.documents

/-- A connection: the tables as it sees them, those that a rollback of the open transaction
restores, and the number of rows of the last modification that succeeded. -/
structure SqliteDB where
  tables : Tables
  transaction : Option Tables
  changes : Nat

/-- The identifier of a new row. -/
def Tables.nextId (t : Tables) : Int := (t.documents.map DocumentRow.id).foldr max 0 + 1

/-- A modification that succeeds, on `n` rows. -/
def SqliteDB.modified (db : SqliteDB) (t : Tables) (n : Nat) : SqliteDB :=
  { db with tables := t, changes := n }

/-! ## Statements that fail -/

/-- The statements of an operation. -/
inductive Statement
  | begin | commit | rollback
  | selectId | insertDocument | updateDocument | deleteDocument | deleteDocuments
  | insertAttribute (i : Nat) | deleteAttributesFromId | deleteAttributesFromSql

inductive Stage
  | prepare | bind | step
  deriving DecidableEq

def sqliteOk : Int := 0

def sqliteConstraint : Int := 19

def sqliteDone : Int := 101

/-- What fails, and its result: a code below `SQLITE_ROW`. -/
structure Failure where
  stage : Stage
  code : Nat
  code_pos : 0 < code
  code_lt : code < 100

/-- The statements of an operation that fail. -/
abbrev Faults := Statement → Option Failure

variable (faults : Faults)

/-! ## Functions on one document -/

/-- A statement that fails gives its code, and `SQLITE_DONE` stands for no row. -/
def getIdFromFullPath (db : SqliteDB) (fullPath : Text) : Int :=
  match faults .selectId with
  | some failure => failure.code
  | none =>
    match db.tables.find fullPath with
    | none => sqliteDone
    | some d => d.id

/-- An attribute of the JNI interface. -/
structure InternalAttribute where
  name : Option Text
  stringValue : Option Text := none
  intValue : Int := 0
  dateValue : Option Text := none
  type : Int

def createAttribute (i : Nat) (db : SqliteDB) (documentId : Int) (attr : InternalAttribute) :
    Int × SqliteDB :=
  match attr.name with
  | none => (-1, db)
  | some name =>
    match faults (.insertAttribute i) with
    | some failure => (failure.code, db)
    | none =>
      let row : AttributeRow :=
        ⟨documentId, ⟨name, attr.stringValue, attr.intValue, attr.dateValue, attr.type⟩⟩
      (sqliteDone,
        db.modified { db.tables with attributes := db.tables.attributes ++ [row] } 1)

/-- The loop over the attributes from the `i`-th on; no result is looked at. -/
def createAttributes (documentId : Int) : Nat → SqliteDB → List InternalAttribute → SqliteDB
  | _, db, [] => db
  | i, db, attr :: attrs =>
    createAttributes documentId (i + 1) (createAttribute faults i db documentId attr).2 attrs

variable (fault : Option Failure)

/-- The deletion of attributes, `-2` when the statement fails. -/
def deleteAttributes (db : SqliteDB) (p : AttributeRow → Bool) :
    Int × SqliteDB :=
  match fault with
  | some _ => (-2, db)
  | none =>
    let db := db.modified
      { db.tables with attributes := db.tables.attributes.filter fun a => !p a }
      (db.tables.attributes.countP p)
    (db.changes, db)

/-- The deletion of documents, `-2` when the statement fails. -/
def deleteDocuments (db : SqliteDB) (p : DocumentRow → Bool) :
    Int × SqliteDB :=
  match fault with
  | some _ => (-2, db)
  | none =>
    let db := db.modified
      { db.tables with documents := db.tables.documents.filter fun d => !p d }
      (db.tables.documents.countP p)
    (db.changes, db)

def deleteAttributesFromId (db : SqliteDB) (documentId : Int) : Int × SqliteDB :=
  deleteAttributes (faults .deleteAttributesFromId) db fun a => a.documentId == documentId

/-- The attributes of the documents whose column `PATH` meets the condition. -/
def deleteAttributesFromSql (db : SqliteDB) (condition : Text → Bool) : Int × SqliteDB :=
  deleteAttributes (faults .deleteAttributesFromSql) db fun a =>
    db.tables.documents.any fun d => d.id == a.documentId && condition d.path

def deleteAttributesOneLevel (db : SqliteDB) (basePath : Text) : Int × SqliteDB :=
  deleteAttributesFromSql faults db fun path => path == basePath

def deleteAttributesSubTree (db : SqliteDB) (basePath : Text) : Int × SqliteDB :=
  deleteAttributesFromSql faults db fun path => glob basePath path

def deleteFromSql (db : SqliteDB) (condition : Text → Bool) : Int × SqliteDB :=
  deleteDocuments (faults .deleteDocuments) db fun d => condition d.path

/-! ## The operations -/

/-- The content of the document; empty when there is none. -/
def sqliteRetrieve (db : SqliteDB) (fullPath : Text) : Content :=
  match fault with
  | some _ => []
  | none =>
    match db.tables.find fullPath with
    | none => []
    | some d => d.content

def sqliteCreate (db : SqliteDB) (fullPath : Text) (content : Content)
    (attrs : List InternalAttribute) : Int × SqliteDB :=
  match faults .insertDocument with
  | some failure => (failure.code, db)
  | none =>
    match db.tables.find fullPath with
    -- the name and the path of a document are unique
    | some _ => (sqliteConstraint, db)
    | none =>
      let row : DocumentRow :=
        ⟨db.tables.nextId, (parseFullPath fullPath).1, (parseFullPath fullPath).2, content⟩
      let db := db.modified { db.tables with documents := db.tables.documents ++ [row] } 1
      -- what becomes of the attributes is not looked at
      (sqliteDone, createAttributes faults row.id 0 db attrs)

/-- The statement `UPDATE DOCUMENT SET CONTENT=? WHERE ID=?`. -/
def updateDocument (db : SqliteDB) (id : Int) (content : Content) : SqliteDB :=
  db.modified
    { db.tables with documents := db.tables.documents.map fun d =>
        if d.id = id then { d with content := content } else d }
    (db.tables.documents.countP fun d => d.id == id)

/-- The number of rows is read from the connection, whatever the statement has given. -/
def sqliteUpdate (db : SqliteDB) (fullPath : Text) (content : Content)
    (attrs : List InternalAttribute) : Int × SqliteDB :=
  let id := getIdFromFullPath faults db fullPath
  let fault := faults .updateDocument
  if fault.map Failure.stage = some .prepare then (0, db)
  else if id < 0 then (0, db)
  else if fault.map Failure.stage = some .bind then (0, db)
  else
    let db := if fault.isSome then db else updateDocument db id content
    -- after a statement that fails this is the number of the one before
    if db.changes > 0 then
      (db.changes, createAttributes faults id 0 (deleteAttributesFromId faults db id).2 attrs)
    else (db.changes, db)

def deleteExact (db : SqliteDB) (fullPath : Text) : Int × SqliteDB :=
  let id := getIdFromFullPath faults db fullPath
  if id < 0 then (-3, db)
  else
    let (r, db) := deleteDocuments (faults .deleteDocument) db fun d => d.id == id
    if r > 0 then (r, (deleteAttributesFromId faults db id).2) else (r, db)

def deleteOneLevel (db : SqliteDB) (basePath : Text) : Int × SqliteDB :=
  let (r, db) := deleteAttributesOneLevel faults db basePath
  if r < 0 then (r, db) else deleteFromSql faults db fun path => path == basePath

def deleteSubTree (db : SqliteDB) (basePath : Text) : Int × SqliteDB :=
  let (r, db) := deleteAttributesSubTree faults db basePath
  if r < 0 then (r, db) else deleteFromSql faults db fun path => glob basePath path

def cascadingNone : Int := 7

def cascadingOneLevel : Int := 6

def cascadingSubtree : Int := 12

/-- The result of the deletion of the base is not looked at. -/
def sqliteDelete (db : SqliteDB) (fullPath : Text) (cascadeLevel : Int) : Int × SqliteDB :=
  if cascadeLevel = cascadingNone then deleteExact faults db fullPath
  else if cascadeLevel = cascadingOneLevel then deleteOneLevel faults db fullPath
  else if cascadeLevel = cascadingSubtree then
    let db := (deleteExact faults db fullPath.dropLast).2
    deleteSubTree faults db (preparePathWithStar fullPath)
  else (-1, db)

/-! ## Transactions -/

/-- `BEGIN`, which also fails inside a transaction. -/
def beginTransaction (db : SqliteDB) : Int × SqliteDB :=
  match faults .begin, db.transaction with
  | some failure, _ => (failure.code, db)
  | none, some _ => (1, db)
  | none, none => (sqliteOk, { db with transaction := some db.tables })

/-- `COMMIT`, which also fails outside a transaction. -/
def commitTransaction (db : SqliteDB) : Int × SqliteDB :=
  match faults .commit, db.transaction with
  | some failure, _ => (failure.code, db)
  | none, none => (1, db)
  | none, some _ => (sqliteOk, { db with transaction := none })

/-- `ROLLBACK`, which also fails outside a transaction. -/
def rollbackTransaction (db : SqliteDB) : Int × SqliteDB :=
  match faults .rollback, db.transaction with
  | some failure, _ => (failure.code, db)
  | none, none => (1, db)
  | none, some t => (sqliteOk, { db with tables := t, transaction := none })

end Ong.StorageDriver
