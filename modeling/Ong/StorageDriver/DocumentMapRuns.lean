import Ong.Lib.Run
import Ong.StorageDriver.DocumentMap

/-!
# The driver as a finite map

An operation of the driver is the operation on the map, or an error that leaves the tables as they
are, as long as the row that it selects is the row of its path, the statements whose results are not
looked at do not fail, the pattern of a subtree matches what is below it, and a document is stored
below a base that is stored.

## Main results

* `documentMap_of_condition`: all along the runs whose operations meet the condition, the driver is
  a finite map
-/

namespace Ong.StorageDriver

open Driver List InternalAttribute DriverEvent

/-- The tables that another connection sees, and that a rollback leaves. -/
def SqliteDB.committed (db : SqliteDB) : Tables := db.transaction.getD db.tables

/-- The statements that the deletion of a subtree executes. -/
def deleteSubtreeStatements : List Statement :=
  [.begin, .selectId, .deleteDocument, .deleteAttributesFromId, .deleteAttributesFromSql,
    .deleteDocuments, .commit, .rollback]

/-- An operation that reports success has done its work on the map, and it is committed; so an
update or a deletion of a path changes this document only, and never succeeds when there is none.
One that reports an error leaves the tables as they are.  The deletion of a subtree does its work
when none of its statements fails. -/
structure OperationKept (s : DriverState) (e : DriverEvent) : Prop where
  success : (e.run s.db).1 = .success →
    e.request.perform s.db.tables.documentMap = some (e.run s.db).2.tables.documentMap ∧
      (e.run s.db).2.committed = (e.run s.db).2.tables
  error : (e.run s.db).1 = .error → (e.run s.db).2.tables = s.db.tables
  subtree : ∀ base, e.request = .deleteSubtree base →
    (∀ statement ∈ deleteSubtreeStatements, e.faults statement = none) →
      e.request.perform s.db.tables.documentMap = some (e.run s.db).2.tables.documentMap

/-- The content of the last successful creation or update of `p` that no deletion follows. -/
def lastWritten (p : Text) : List (Request × Outcome) → Option Content
  | [] => none
  | (_, .error) :: history => lastWritten p history
  | (.create q content _, .success) :: history | (.update q content _, .success) :: history =>
    if canonicalPath q = canonicalPath p then some content else lastWritten p history
  | (.delete q, .success) :: history =>
    if canonicalPath q = canonicalPath p then none else lastWritten p history
  | (.deleteSubtree base, .success) :: history =>
    if Covers base (canonicalPath p) then none else lastWritten p history

structure IsDocumentMap (s : DriverState) : Prop where
  retrieve : ∀ p, Driver.retrieve none s.db p = lastWritten p s.history
  owned : ∀ a ∈ s.db.tables.attributes, ∃ d ∈ s.db.tables.documents, d.id = a.documentId

/-! ## The condition -/

/-- The statements that store a document and its attributes do not fail, and what is stored can be
told from nothing. -/
def StoresDocument (faults : Faults) (content : Content)
    (searchAttributes : Option (List SearchAttribute)) : Prop :=
  ∀ attrs ∈ Driver.internalAttributes searchAttributes,
    content ≠ [] ∧ (∀ attr ∈ attrs, attr.name ≠ none) ∧
      (∀ i < attrs.length, faults (.insertAttribute i) = none) ∧ faults .commit = none

/-- The attributes of a document are deleted, or it has none. -/
def RemovesAttributes (faults : Faults) (t : Tables) (id : Int) : Prop :=
  faults .deleteAttributesFromId = none ∨ ∀ a ∈ t.attributes, a.documentId ≠ id

/-- The condition on the deletion of a subtree. -/
def SubtreeCondition (faults : Faults) (db : SqliteDB) (base : Text) : Prop :=
  let dir := base ++ [pathDelimiter]
  let id := getIdFromFullPath faults db base
  (∀ d ∈ db.tables.documents, glob (preparePathWithStar dir) d.path = true ↔ dir <+: d.fullPath) ∧
    faults .deleteAttributesFromSql = none ∧ faults .deleteDocuments = none ∧
    if ∃ d ∈ db.tables.documents, dir <+: d.fullPath then
      faults .commit = none ∧
        (∀ d ∈ db.tables.documents, d.id = id →
          d.fullPath = canonicalPath base ∧ RemovesAttributes faults db.tables d.id) ∧
        ∀ d ∈ db.tables.documents, d.fullPath = canonicalPath base →
          d.id = id ∧ faults .deleteDocument = none
    else
      faults .begin = none ∧ faults .rollback = none ∧
        ((∃ statement ∈ deleteSubtreeStatements, faults statement ≠ none) ∨
          ∀ d ∈ db.tables.documents, d.fullPath ≠ canonicalPath base)

/-- **The condition** on an operation, in the state before it. -/
def DriverCondition (s : DriverState) (e : DriverEvent) : Prop :=
  let t := s.db.tables
  match e.request with
  | .create p content searchAttributes =>
    t.find p = none → e.faults .insertDocument = none →
      StoresDocument e.faults content searchAttributes
  | .update p content searchAttributes =>
    Driver.internalAttributes searchAttributes ≠ none →
      match (e.faults .updateDocument).map Failure.stage with
      | some .prepare | some .bind => True
      -- the statement fails, and the number of rows is the one of the statement before
      | some .step => s.db.changes = 0
      | none => ∀ d ∈ t.documents, d.id = getIdFromFullPath e.faults s.db p →
          d.fullPath = canonicalPath p ∧ RemovesAttributes e.faults t d.id ∧
            StoresDocument e.faults content searchAttributes
  | .delete p =>
    -- also where there is no such document: the driver tells the two apart by the rows
    e.faults .deleteDocument = none ∧
      ∀ d ∈ t.documents, d.id = getIdFromFullPath e.faults s.db p →
        d.fullPath = canonicalPath p ∧ RemovesAttributes e.faults t d.id ∧
          e.faults .commit = none
  | .deleteSubtree base => SubtreeCondition e.faults s.db base

section Decidable

variable (faults : Faults) (content : Content) (searchAttributes : Option (List SearchAttribute))
  (t : Tables) (db : SqliteDB)

instance : Decidable (StoresDocument faults content searchAttributes) :=
  match h : internalAttributes searchAttributes with
  | none => isTrue fun attrs hattrs => by simp [h] at hattrs
  | some attrs => decidable_of_iff
      (content ≠ [] ∧ (∀ attr ∈ attrs, attr.name ≠ none) ∧
        (∀ i < attrs.length, faults (.insertAttribute i) = none) ∧ faults .commit = none)
      (by simp [StoresDocument, h])

instance (id : Int) : Decidable (RemovesAttributes faults t id) :=
  inferInstanceAs (Decidable (_ ∨ _))

instance (base : Text) : Decidable (SubtreeCondition faults db base) :=
  inferInstanceAs (Decidable (_ ∧ _))

instance (s : DriverState) : (e : DriverEvent) → Decidable (DriverCondition s e)
  | ⟨.create _ _ _, _⟩ => inferInstanceAs (Decidable (_ → _))
  | ⟨.update p content searchAttributes, faults⟩ =>
    have : ∀ stage : Option Stage, Decidable (match stage with
        | some .prepare | some .bind => True
        | some .step => s.db.changes = 0
        | none => ∀ d ∈ s.db.tables.documents, d.id = getIdFromFullPath faults s.db p →
            d.fullPath = canonicalPath p ∧ RemovesAttributes faults s.db.tables d.id ∧
              StoresDocument faults content searchAttributes) := fun stage =>
      match stage with
      | some .prepare | some .bind => isTrue trivial
      | some .step => inferInstanceAs (Decidable (_ = _))
      | none => inferInstanceAs (Decidable (∀ _ ∈ _, _))
    inferInstanceAs (Decidable (_ → _))
  | ⟨.delete _, _⟩ => inferInstanceAs (Decidable (_ ∧ _))
  | ⟨.deleteSubtree base, faults⟩ => inferInstanceAs (Decidable (SubtreeCondition faults s.db base))

end Decidable

/-! ## What the native driver does -/

section

variable (db : SqliteDB) (t : Tables) (n : Nat)

@[simp] theorem tables_modified :
    (db.modified t n).tables = t := rfl

@[simp] theorem changes_modified :
    (db.modified t n).changes = n := rfl

end

variable {faults : Faults} {db : SqliteDB}

section Native

variable {p : Text}

theorem getIdFromFullPath_nonneg (h : db.tables.WellFormed) (faults : Faults) (p : Text) :
    0 ≤ getIdFromFullPath faults db p := by
  unfold getIdFromFullPath
  cases faults .selectId with
  | some failure => exact Int.natCast_nonneg _
  | none =>
    cases hfind : db.tables.find p with
    | none => decide
    | some d => exact Int.le_of_lt (h.id_pos d (mem_of_find h hfind).1)

theorem createAttributes_tables {id : Int} {attrs : List InternalAttribute}
    {attributes : List Attribute} (hcols : attrs.mapM columns = some attributes)
    (i : Nat) (hf : ∀ j < attrs.length, faults (.insertAttribute (i + j)) = none) :
    (createAttributes faults id i db attrs).transaction = db.transaction ∧
      (createAttributes faults id i db attrs).tables =
        ⟨db.tables.documents, db.tables.attributes ++ attributeRows id attributes⟩ := by
  -- the induction is over the attributes, with the database after each insertion
  induction attrs generalizing i db attributes with
  | nil =>
    rw [mapM_nil] at hcols
    cases hcols
    rw [attributeRows, map_nil, append_nil]
    exact ⟨rfl, rfl⟩
  | cons attr attrs ih =>
    rw [mapM_cons] at hcols
    obtain ⟨a, ha, hcols⟩ := Option.bind_eq_some_iff.mp hcols
    obtain ⟨as, has, hcols⟩ := Option.bind_eq_some_iff.mp hcols
    cases hcols
    obtain ⟨name, hname, rfl⟩ := Option.map_eq_some_iff.mp ha
    have h0 : faults (.insertAttribute i) = none := hf 0 (Nat.zero_lt_succ _)
    have hstep : (createAttribute faults i db id attr).2 = db.modified
        ⟨db.tables.documents, db.tables.attributes ++
          [⟨id, name, attr.stringValue, attr.intValue, attr.dateValue, attr.type⟩]⟩ 1 := by
      unfold createAttribute
      rw [hname, h0]
    have hrest : ∀ j < attrs.length, faults (.insertAttribute (i + 1 + j)) = none := by
      intro j hj
      rw [Nat.add_assoc, Nat.add_comm 1 j]
      exact hf (j + 1) (Nat.succ_lt_succ hj)
    rw [createAttributes, hstep]
    refine ⟨(ih has (i + 1) hrest).1, (ih has (i + 1) hrest).2.trans ?_⟩
    rw [tables_modified, append_assoc]
    rfl

/-- The row of a new document. -/
def newRow (t : Tables) (p : Text) (content : Content) : DocumentRow :=
  ⟨t.nextId, (parseFullPath p).1, (parseFullPath p).2, content⟩

theorem fullPath_newRow (t : Tables) (p : Text) (content : Content) :
    (newRow t p content).fullPath = canonicalPath p := fullPath_parseFullPath p

theorem sqliteCreate_tables (content : Content) {attrs : List InternalAttribute}
    {attributes : List Attribute} (hinsert : faults .insertDocument = none)
    (hfind : db.tables.find p = none)
    (hcolumns : attrs.mapM columns = some attributes)
    (hinserts : ∀ i < attrs.length, faults (.insertAttribute i) = none) :
    (sqliteCreate faults db p content attrs).1 = sqliteDone ∧
      (sqliteCreate faults db p content attrs).2.transaction = db.transaction ∧
      (sqliteCreate faults db p content attrs).2.tables =
        db.tables.insert (newRow db.tables p content) attributes := by
  have hf : ∀ i < attrs.length, faults (.insertAttribute (0 + i)) = none := by
    intro i hi
    rw [Nat.zero_add]
    exact hinserts i hi
  unfold sqliteCreate
  rw [hinsert, hfind]
  exact ⟨rfl, (createAttributes_tables hcolumns 0 hf).1, (createAttributes_tables hcolumns 0 hf).2⟩

theorem sqliteCreate_refused (content : Content) (attrs : List InternalAttribute)
    (h : faults .insertDocument ≠ none ∨ db.tables.find p ≠ none) :
    (sqliteCreate faults db p content attrs).1 ≠ sqliteDone ∧
      (sqliteCreate faults db p content attrs).2 = db := by
  unfold sqliteCreate
  cases hinsert : faults .insertDocument with
  | some failure =>
    have hcode : (failure.code : Int) ≠ 101 := by
      have := failure.code_lt
      omega
    exact ⟨hcode, rfl⟩
  | none =>
    cases hfind : db.tables.find p with
    | some d =>
      have hcode : sqliteConstraint ≠ sqliteDone := by decide
      exact ⟨hcode, rfl⟩
    | none => exact absurd hfind (h.resolve_left (not_not_intro hinsert))

theorem deleteAttributesFromId_tables {id : Int} (h : RemovesAttributes faults db.tables id) :
    (deleteAttributesFromId faults db id).2.transaction = db.transaction ∧
      (deleteAttributesFromId faults db id).2.tables = ⟨db.tables.documents,
        db.tables.attributes.filter fun a => !(a.documentId == id)⟩ := by
  unfold deleteAttributesFromId deleteAttributes
  cases hf : faults .deleteAttributesFromId with
  | none => exact ⟨rfl, rfl⟩
  | some failure =>
    have hnone := h.resolve_left (by rw [hf]; exact Option.some_ne_none _)
    have hfilter : db.tables.attributes.filter (fun a => !(a.documentId == id)) =
        db.tables.attributes := by
      rw [filter_eq_self]
      intro a ha
      simpa using hnone a ha
    rw [hfilter]
    exact ⟨rfl, rfl⟩

theorem sqliteUpdate_tables (hw : db.tables.WellFormed) (content : Content)
    {attrs : List InternalAttribute} {attributes : List Attribute} {d : DocumentRow}
    (hupdate : faults .updateDocument = none) (hd : d ∈ db.tables.documents)
    (hid : d.id = getIdFromFullPath faults db p)
    (hremoves : RemovesAttributes faults db.tables d.id)
    (hcolumns : attrs.mapM columns = some attributes)
    (hinserts : ∀ i < attrs.length, faults (.insertAttribute i) = none) :
    (sqliteUpdate faults db p content attrs).1 ≠ 0 ∧
      (sqliteUpdate faults db p content attrs).2.transaction = db.transaction ∧
      (sqliteUpdate faults db p content attrs).2.tables =
        db.tables.rewrite d.id content attributes := by
  have hchanges : 0 < (updateDocument db d.id content).changes :=
    countP_pos_iff.mpr ⟨d, hd, beq_self_eq_true _⟩
  have hf : ∀ i < attrs.length, faults (.insertAttribute (0 + i)) = none := by
    intro i hi
    rw [Nat.zero_add]
    exact hinserts i hi
  have hdeleted : RemovesAttributes faults (updateDocument db d.id content).tables d.id := hremoves
  obtain ⟨htransaction, htables⟩ := deleteAttributesFromId_tables hdeleted
  have hcreated := @createAttributes_tables faults
    (deleteAttributesFromId faults (updateDocument db d.id content) d.id).2 d.id _ _ hcolumns 0 hf
  have hnonneg := getIdFromFullPath_nonneg hw faults p
  unfold sqliteUpdate
  rw [← hid] at hnonneg ⊢
  rw [hupdate]
  simp only [Option.map_none, reduceCtorEq, if_false, Int.not_lt.mpr hnonneg, Option.isSome_none,
    Bool.false_eq_true, gt_iff_lt, hchanges, if_true]
  refine ⟨by omega, hcreated.1.trans htransaction, hcreated.2.trans ?_⟩
  rw [htables]
  rfl

theorem sqliteUpdate_refused (content : Content) (attrs : List InternalAttribute)
    (h : match (faults .updateDocument).map Failure.stage with
      | some .prepare | some .bind => True
      | some .step => db.changes = 0
      | none => ∀ d ∈ db.tables.documents, d.id ≠ getIdFromFullPath faults db p) :
    (sqliteUpdate faults db p content attrs).1 = 0 ∧
      (sqliteUpdate faults db p content attrs).2.transaction = db.transaction ∧
      (sqliteUpdate faults db p content attrs).2.tables = db.tables := by
  unfold sqliteUpdate
  cases hupdate : faults .updateDocument with
  | none =>
    rw [hupdate] at h
    have hchanges : (updateDocument db (getIdFromFullPath faults db p) content).changes = 0 :=
      countP_eq_zero.mpr fun d hd => by simpa using h d hd
    have htables : (updateDocument db (getIdFromFullPath faults db p) content).tables =
        db.tables := by
      have hmap : db.tables.documents.map (fun d =>
          if d.id = getIdFromFullPath faults db p then { d with content := content } else d) =
          db.tables.documents := by
        rw [map_congr_left fun d hd => if_neg (h d hd)]
        exact map_id _
      unfold updateDocument
      rw [hmap]
      rfl
    simp only [Option.map_none, reduceCtorEq, if_false, Option.isSome_none, Bool.false_eq_true,
      hchanges, gt_iff_lt, Nat.lt_irrefl]
    split
    · exact ⟨rfl, rfl, rfl⟩
    · exact ⟨rfl, rfl, htables⟩
  | some failure =>
    rw [hupdate, Option.map_some] at h
    simp only [Option.map_some, Option.some.injEq, Option.isSome_some, if_true]
    cases hstage : failure.stage with
    | prepare => exact ⟨rfl, rfl, rfl⟩
    | bind =>
      split
      · exact ⟨rfl, rfl, rfl⟩
      · split
        · exact ⟨rfl, rfl, rfl⟩
        · exact ⟨rfl, rfl, rfl⟩
    | step =>
      rw [hstage] at h
      simp only [reduceCtorEq, if_false, gt_iff_lt, h, Nat.lt_irrefl]
      split
      · exact ⟨rfl, rfl, rfl⟩
      · exact ⟨rfl, rfl, rfl⟩

theorem exists_columns {attrs : List InternalAttribute} (h : ∀ attr ∈ attrs, attr.name ≠ none) :
    ∃ attributes, attrs.mapM columns = some attributes := by
  induction attrs with
  | nil => exact ⟨[], rfl⟩
  | cons attr attrs ih =>
    rw [forall_mem_cons] at h
    obtain ⟨attributes, hattributes⟩ := ih h.2
    obtain ⟨name, hname⟩ := Option.ne_none_iff_exists'.mp h.1
    rw [mapM_cons, hattributes, columns, hname]
    exact ⟨_, rfl⟩

end Native

/-! ## What an operation does inside its transaction -/

/-- An operation that reports success has done its work, which is going to be committed; one that
reports an error has left the tables as they are, or is going to be rolled back. -/
structure Performs (faults : Faults) (db : SqliteDB) (request : Request)
    (r : Outcome × SqliteDB) : Prop where
  transaction : r.2.transaction = db.transaction
  success : r.1 = .success →
    request.perform db.tables.documentMap = some r.2.tables.documentMap ∧
      r.2.tables.WellFormed ∧ faults .commit = none
  error : r.1 = .error →
    r.2.tables = db.tables ∨ faults .begin = none ∧ faults .rollback = none

section Operations

variable {p : Text} {content : Content} {searchAttributes : Option (List SearchAttribute)}
  {request : Request}

theorem performs_of_error {r : Outcome × SqliteDB} (hr : r.1 = .error)
    (htransaction : r.2.transaction = db.transaction) (htables : r.2.tables = db.tables) :
    Performs faults db request r := by
  refine ⟨htransaction, fun h => ?_, fun _ => .inl htables⟩
  rw [hr] at h
  cases h

theorem performs_of_success {r : Outcome × SqliteDB} (hr : r.1 = .success)
    (htransaction : r.2.transaction = db.transaction)
    (hperform : request.perform db.tables.documentMap = some r.2.tables.documentMap)
    (hw : r.2.tables.WellFormed) (hcommit : faults .commit = none) :
    Performs faults db request r := by
  refine ⟨htransaction, fun _ => ⟨hperform, hw, hcommit⟩, fun h => ?_⟩
  rw [hr] at h
  cases h

theorem StoresDocument.exists_attributes (h : StoresDocument faults content searchAttributes)
    {attrs : List InternalAttribute}
    (hattrs : internalAttributes searchAttributes = some attrs) :
    ∃ attributes, attrs.mapM columns = some attributes ∧
      storedAttributes searchAttributes = some attributes := by
  obtain ⟨attributes, hattributes⟩ := exists_columns (h attrs hattrs).2.1
  refine ⟨attributes, hattributes, ?_⟩
  rw [storedAttributes, hattrs, Option.bind_some, hattributes]

theorem create_performs (hw : db.tables.WellFormed)
    (hC : db.tables.find p = none → faults .insertDocument = none →
      StoresDocument faults content searchAttributes) :
    Performs faults db (.create p content searchAttributes)
      (match internalAttributes searchAttributes with
      | none => (.error, db)
      | some attrs =>
        let (sqlCode, db) := sqliteCreate faults db p content attrs
        (if sqlCode ≠ 101 then .error else .success, db)) := by
  cases hattrs : internalAttributes searchAttributes with
  | none => exact performs_of_error rfl rfl rfl
  | some attrs =>
    dsimp only
    rcases hr : sqliteCreate faults db p content attrs with ⟨sqlCode, db'⟩
    by_cases hrefused : faults .insertDocument ≠ none ∨ db.tables.find p ≠ none
    · obtain ⟨hcode, hdb⟩ := sqliteCreate_refused content attrs hrefused
      rw [hr] at hcode hdb
      subst hdb
      exact performs_of_error (if_pos hcode) rfl rfl
    · rw [not_or, not_not, not_not] at hrefused
      obtain ⟨hinsert, hfind⟩ := hrefused
      have hstores := hC hfind hinsert
      obtain ⟨attributes, hcolumns, hstored⟩ := hstores.exists_attributes hattrs
      obtain ⟨hcontent, -, hinserts, hcommit⟩ := hstores attrs hattrs
      have hcreated := sqliteCreate_tables content hinsert hfind hcolumns hinserts
      rw [hr] at hcreated
      obtain ⟨hcode, htransaction, htables⟩ := hcreated
      have hid : ∀ d ∈ db.tables.documents, d.id ≠ (newRow db.tables p content).id :=
        fun d hd => Int.ne_of_lt (lt_nextId db.tables d hd)
      have hpath : ∀ d ∈ db.tables.documents,
          d.fullPath ≠ (newRow db.tables p content).fullPath := by
        rw [fullPath_newRow]
        exact (find_eq_none hw).mp hfind
      refine performs_of_success (if_neg (not_not_intro hcode)) htransaction ?_ ?_ hcommit
      · rw [Request.perform, documentMap_canonicalPath hw, hfind, hstored, htables,
          documentMap_insert hw hid hpath, fullPath_newRow]
        rfl
      · rw [htables]
        exact hw.insert hid hpath (nextId_pos _) (isPathName_parseFullPath p) hcontent

theorem update_performs (hw : db.tables.WellFormed)
    (hC : internalAttributes searchAttributes ≠ none →
      match (faults .updateDocument).map Failure.stage with
      | some .prepare | some .bind => True
      | some .step => db.changes = 0
      | none => ∀ d ∈ db.tables.documents, d.id = getIdFromFullPath faults db p →
          d.fullPath = canonicalPath p ∧ RemovesAttributes faults db.tables d.id ∧
            StoresDocument faults content searchAttributes) :
    Performs faults db (.update p content searchAttributes)
      (match internalAttributes searchAttributes with
      | none => (.error, db)
      | some attrs =>
        let (numberOfAffectedRows, db) := sqliteUpdate faults db p content attrs
        (if numberOfAffectedRows = 0 then .error else .success, db)) := by
  cases hattrs : internalAttributes searchAttributes with
  | none => exact performs_of_error rfl rfl rfl
  | some attrs =>
    have hC := hC (by rw [hattrs]; exact Option.some_ne_none _)
    dsimp only
    rcases hr : sqliteUpdate faults db p content attrs with ⟨rows, db'⟩
    by_cases hselected : faults .updateDocument = none ∧
        ∃ d ∈ db.tables.documents, d.id = getIdFromFullPath faults db p
    · obtain ⟨hupdate, d, hd, hid⟩ := hselected
      rw [hupdate] at hC
      obtain ⟨hpath, hremoves, hstores⟩ := hC d hd hid
      obtain ⟨attributes, hcolumns, hstored⟩ := hstores.exists_attributes hattrs
      obtain ⟨hcontent, -, hinserts, hcommit⟩ := hstores attrs hattrs
      have hupdated := sqliteUpdate_tables hw content hupdate hd hid hremoves hcolumns hinserts
      rw [hr] at hupdated
      obtain ⟨hrows, htransaction, htables⟩ := hupdated
      have hfind : db.tables.find p = some d := find_of_mem hw hd hpath
      refine performs_of_success (if_neg hrows) htransaction ?_ ?_ hcommit
      · rw [Request.perform, documentMap_canonicalPath hw, hfind, hstored, htables,
          documentMap_rewrite hw hd, hpath]
        rfl
      · rw [htables]
        exact hw.rewrite hd hcontent
    · have hunselected : match (faults .updateDocument).map Failure.stage with
          | some .prepare | some .bind => True
          | some .step => db.changes = 0
          | none => ∀ d ∈ db.tables.documents, d.id ≠ getIdFromFullPath faults db p := by
        cases hupdate : faults .updateDocument with
        | none => exact fun d hd hid => hselected ⟨hupdate, d, hd, hid⟩
        | some failure =>
          rw [hupdate, Option.map_some] at hC
          rw [Option.map_some]
          cases hstage : failure.stage with
          | prepare | bind => trivial
          | step =>
            rw [hstage] at hC
            exact hC
      have hrefused := sqliteUpdate_refused content attrs hunselected
      rw [hr] at hrefused
      obtain ⟨hrows, htransaction, htables⟩ := hrefused
      exact performs_of_error (if_pos hrows) htransaction htables

/-! ### Deletions -/

theorem deleteExact_tables (hw : db.tables.WellFormed) {d : DocumentRow}
    (hdelete : faults .deleteDocument = none) (hd : d ∈ db.tables.documents)
    (hid : d.id = getIdFromFullPath faults db p)
    (hremoves : RemovesAttributes faults db.tables d.id) :
    (deleteExact faults db p).1 ≠ 0 ∧
      (deleteExact faults db p).2.transaction = db.transaction ∧
      (deleteExact faults db p).2.tables = db.tables.remove fun d' => d'.id == d.id := by
  have hnonneg := getIdFromFullPath_nonneg hw faults p
  have hcount : 0 < db.tables.documents.countP fun d' => d'.id == d.id :=
    countP_pos_iff.mpr ⟨d, hd, beq_self_eq_true _⟩
  have hattributes : db.tables.attributes.filter (fun a => !(a.documentId == d.id)) =
      (db.tables.remove fun d' => d'.id == d.id).attributes := by
    refine filter_congr fun a _ => ?_
    congr 1
    rw [Bool.eq_iff_iff, any_eq_true, beq_iff_eq]
    constructor
    · intro ha
      exact ⟨d, hd, by rw [ha]; simp⟩
    · rintro ⟨d', -, hboth⟩
      rw [Bool.and_eq_true, beq_iff_eq, beq_iff_eq] at hboth
      exact hboth.1.symm.trans hboth.2
  unfold deleteExact deleteDocuments
  rw [← hid] at hnonneg ⊢
  rw [hdelete, if_neg (Int.not_lt.mpr hnonneg)]
  dsimp only
  rw [if_pos (by exact_mod_cast hcount)]
  have hdeleted := @deleteAttributesFromId_tables faults (db.modified
    ⟨db.tables.documents.filter fun d' => !(d'.id == d.id), db.tables.attributes⟩
    (db.tables.documents.countP fun d' => d'.id == d.id)) d.id hremoves
  refine ⟨?_, hdeleted.1, hdeleted.2.trans ?_⟩
  · rw [changes_modified]
    omega
  · rw [tables_modified, hattributes]
    rfl

theorem deleteExact_refused (hw : db.tables.WellFormed)
    (hnone : ∀ d ∈ db.tables.documents, d.id ≠ getIdFromFullPath faults db p) :
    (deleteExact faults db p).2.transaction = db.transaction ∧
      (deleteExact faults db p).2.tables = db.tables ∧
      (faults .deleteDocument = none → (deleteExact faults db p).1 = 0) := by
  have hnonneg := getIdFromFullPath_nonneg hw faults p
  have hcount : db.tables.documents.countP
      (fun d => d.id == getIdFromFullPath faults db p) = 0 :=
    countP_eq_zero.mpr fun d hd => by simpa using hnone d hd
  have hfilter : db.tables.documents.filter
      (fun d => !(d.id == getIdFromFullPath faults db p)) = db.tables.documents := by
    rw [filter_eq_self]
    intro d hd
    simpa using hnone d hd
  unfold deleteExact deleteDocuments
  rw [if_neg (Int.not_lt.mpr hnonneg)]
  cases hdelete : faults .deleteDocument with
  | some failure => exact ⟨rfl, rfl, nofun⟩
  | none =>
    rw [hcount, hfilter]
    exact ⟨rfl, rfl, fun _ => rfl⟩

theorem delete_performs (hw : db.tables.WellFormed) (hdelete : faults .deleteDocument = none)
    (hC : ∀ d ∈ db.tables.documents, d.id = getIdFromFullPath faults db p →
      d.fullPath = canonicalPath p ∧ RemovesAttributes faults db.tables d.id ∧
        faults .commit = none) :
    Performs faults db (.delete p)
      (let (numberOfAffectedRows, db) := sqliteDelete faults db p cascadingNone
      (if numberOfAffectedRows = 0 then .error else .success, db)) := by
  have hexact : sqliteDelete faults db p cascadingNone = deleteExact faults db p := if_pos rfl
  rw [hexact]
  by_cases hselected : ∃ d ∈ db.tables.documents, d.id = getIdFromFullPath faults db p
  · obtain ⟨d, hd, hid⟩ := hselected
    obtain ⟨hpath, hremoves, hcommit⟩ := hC d hd hid
    obtain ⟨hrows, htransaction, htables⟩ := deleteExact_tables hw hdelete hd hid hremoves
    have hfind : db.tables.find p = some d := find_of_mem hw hd hpath
    refine performs_of_success (if_neg hrows) htransaction ?_ ?_ hcommit
    · rw [Request.perform, documentMap_canonicalPath hw, hfind, htables,
        documentMap_remove_id hw hd, hpath]
      rfl
    · rw [htables]
      exact hw.remove
  · have hnone : ∀ d ∈ db.tables.documents, d.id ≠ getIdFromFullPath faults db p :=
      fun d hd hid => hselected ⟨d, hd, hid⟩
    obtain ⟨htransaction, htables, hrows⟩ := deleteExact_refused hw hnone
    exact performs_of_error (if_pos (hrows hdelete)) htransaction htables

/-! ### Subtrees -/

theorem deleteExact_frame (faults : Faults) (db : SqliteDB) (p : Text) :
    (deleteExact faults db p).2.transaction = db.transaction ∧
      ∀ d ∈ (deleteExact faults db p).2.tables.documents, d ∈ db.tables.documents := by
  unfold deleteExact deleteDocuments deleteAttributesFromId deleteAttributes
  cases faults .deleteDocument with
  | some failure =>
    dsimp only
    split_ifs
    · exact ⟨rfl, fun _ hd => hd⟩
    · contradiction
    · exact ⟨rfl, fun _ hd => hd⟩
  | none =>
    dsimp only
    cases faults .deleteAttributesFromId with
    | some failure =>
      split_ifs
      · exact ⟨rfl, fun _ hd => hd⟩
      · exact ⟨rfl, fun _ hd => (mem_filter.mp hd).1⟩
      · exact ⟨rfl, fun _ hd => (mem_filter.mp hd).1⟩
    | none =>
      split_ifs
      · exact ⟨rfl, fun _ hd => hd⟩
      · exact ⟨rfl, fun _ hd => (mem_filter.mp hd).1⟩
      · exact ⟨rfl, fun _ hd => (mem_filter.mp hd).1⟩

theorem deleteSubTree_eq (hattributes : faults .deleteAttributesFromSql = none)
    (hdocuments : faults .deleteDocuments = none) (db : SqliteDB) (pattern : Text) :
    deleteSubTree faults db pattern =
      (((db.tables.documents.countP fun d => glob pattern d.path : Nat) : Int),
        db.modified (db.tables.remove fun d => glob pattern d.path)
          (db.tables.documents.countP fun d => glob pattern d.path)) := by
  unfold deleteSubTree deleteAttributesSubTree deleteAttributesFromSql deleteAttributes
    deleteFromSql deleteDocuments
  rw [hattributes, hdocuments]
  exact if_neg (Int.not_lt.mpr (Int.natCast_nonneg _))

theorem documentMap_remove_dir {t : Tables} (h : t.WellFormed) {q : DocumentRow → Bool}
    {dir : Text} (hq : ∀ d ∈ t.documents, q d = true ↔ dir <+: d.fullPath) (path : Text) :
    (t.remove q).documentMap path = if dir <+: path then none else t.documentMap path := by
  rw [documentMap_remove h, Tables.documentMap]
  cases hfind : Table.find DocumentRow.fullPath path t.documents with
  | none => exact (ite_self _).symm
  | some d =>
    have hqd := hq d (Table.mem_of_find hfind)
    rw [Table.key_of_find hfind] at hqd
    by_cases hdir : dir <+: path
    · rw [if_pos hdir]
      simp [hqd.mpr hdir]
    · rw [if_neg hdir]
      simp [Bool.eq_false_iff.mpr fun h => hdir (hqd.mp h)]

theorem not_prefix_canonicalPath (base : Text) :
    ¬ base ++ [pathDelimiter] <+: canonicalPath base := by
  intro h
  unfold canonicalPath at h
  split_ifs at h with hbase
  · have := h.length_le
    rw [length_append, length_singleton] at this
    omega
  · rw [not_or] at hbase
    have heq : base ++ [pathDelimiter] = pathDelimiter :: base :=
      h.eq_of_length (by rw [length_append]; rfl)
    obtain ⟨c, rest, rfl⟩ := exists_cons_of_ne_nil hbase.1
    rw [cons_append, cons.injEq] at heq
    exact hbase.2 (heq.1 ▸ mem_cons_self)

theorem sqliteDelete_subtree (faults : Faults) (db : SqliteDB) (base : Text) :
    sqliteDelete faults db (base ++ [pathDelimiter]) cascadingSubtree =
      deleteSubTree faults (deleteExact faults db base).2
        (preparePathWithStar (base ++ [pathDelimiter])) := by
  have hlast : (base ++ [pathDelimiter]).dropLast = base := dropLast_concat
  unfold sqliteDelete
  rw [if_neg (by decide), if_neg (by decide), if_pos rfl, hlast]

variable {base : Text}

theorem deleteExact_base (hw : db.tables.WellFormed)
    (hown : ∀ d ∈ db.tables.documents, d.id = getIdFromFullPath faults db base →
      d.fullPath = canonicalPath base ∧ RemovesAttributes faults db.tables d.id)
    (hfound : ∀ d ∈ db.tables.documents, d.fullPath = canonicalPath base →
      d.id = getIdFromFullPath faults db base ∧ faults .deleteDocument = none) :
    (deleteExact faults db base).2.tables.WellFormed ∧
      (deleteExact faults db base).2.tables.documentMap =
        Function.update db.tables.documentMap (canonicalPath base) none ∧
      ∀ d ∈ db.tables.documents, d.fullPath ≠ canonicalPath base →
        d ∈ (deleteExact faults db base).2.tables.documents := by
  by_cases hselected : ∃ d ∈ db.tables.documents, d.id = getIdFromFullPath faults db base
  · obtain ⟨d, hd, hid⟩ := hselected
    obtain ⟨hpath, hremoves⟩ := hown d hd hid
    have hdelete := (hfound d hd hpath).2
    obtain ⟨-, -, htables⟩ := deleteExact_tables hw hdelete hd hid hremoves
    rw [htables]
    refine ⟨hw.remove, by rw [documentMap_remove_id hw hd, hpath], fun d' hd' hne => ?_⟩
    refine mem_filter.mpr ⟨hd', ?_⟩
    rw [Bool.not_eq_true', beq_eq_false_iff_ne]
    intro heq
    apply hne
    rw [Table.eq_of_key_eq hw.id_nodup hd' hd heq, hpath]
  · have hnone : ∀ d ∈ db.tables.documents, d.id ≠ getIdFromFullPath faults db base :=
      fun d hd hid => hselected ⟨d, hd, hid⟩
    obtain ⟨-, htables, -⟩ := deleteExact_refused hw hnone
    rw [htables]
    refine ⟨hw, ?_, fun d hd _ => hd⟩
    have hfind : db.tables.find base = none :=
      (find_eq_none hw).mpr fun d hd hpath => hnone d hd (hfound d hd hpath).1
    have hmap : db.tables.documentMap (canonicalPath base) = none := by
      rw [documentMap_canonicalPath hw, hfind]
      rfl
    rw [← hmap, Function.update_eq_self]

theorem deleteSubtree_performs (hw : db.tables.WellFormed)
    (hC : SubtreeCondition faults db base) :
    Performs faults db (.deleteSubtree base)
      (let (numberOfAffectedRows, db) :=
        sqliteDelete faults db (base ++ [pathDelimiter]) cascadingSubtree
      (if numberOfAffectedRows = 0 then .error else .success, db)) := by
  obtain ⟨hglob, hattributes, hdocuments, hbranch⟩ := hC
  obtain ⟨htransaction, hsub⟩ := deleteExact_frame faults db base
  rw [sqliteDelete_subtree, deleteSubTree_eq hattributes hdocuments]
  generalize preparePathWithStar (base ++ [pathDelimiter]) = pattern at hglob ⊢
  split at hbranch
  · rename_i hbelow
    obtain ⟨hcommit, hown, hfound⟩ := hbranch
    obtain ⟨hw', hmap, hstays⟩ := deleteExact_base hw hown hfound
    obtain ⟨d, hd, hdir⟩ := hbelow
    have hne : d.fullPath ≠ canonicalPath base :=
      fun heq => not_prefix_canonicalPath base (heq ▸ hdir)
    have hcount : 0 < (deleteExact faults db base).2.tables.documents.countP
        fun d => glob pattern d.path :=
      countP_pos_iff.mpr ⟨d, hstays d hd hne, (hglob d hd).mpr hdir⟩
    refine performs_of_success (if_neg ?_) htransaction ?_ hw'.remove hcommit
    · omega
    · rw [Request.perform, Option.some_inj]
      funext path
      rw [tables_modified, documentMap_remove_dir hw' fun d hd => hglob d (hsub d hd), hmap]
      by_cases hdir : base ++ [pathDelimiter] <+: path
      · rw [if_pos hdir, if_pos (.inr hdir)]
      · rw [if_neg hdir]
        by_cases hbase : path = canonicalPath base
        · rw [if_pos (.inl hbase), hbase, Function.update_self]
        · have hcovers : ¬ Covers base path := not_or.mpr ⟨hbase, hdir⟩
          rw [if_neg hcovers, Function.update_of_ne hbase]
  · rename_i hbelow
    obtain ⟨hbegin, hrollback, -⟩ := hbranch
    have hcount : (deleteExact faults db base).2.tables.documents.countP
        (fun d => glob pattern d.path) = 0 :=
      countP_eq_zero.mpr fun d hd hmatch =>
        hbelow ⟨d, hsub d hd, (hglob d (hsub d hd)).mp hmatch⟩
    rw [hcount]
    exact ⟨htransaction, nofun, fun _ => .inr ⟨hbegin, hrollback⟩⟩

theorem documents_of_deleteSubtree_error (hw : db.tables.WellFormed)
    (hC : SubtreeCondition faults db base)
    (hnone : ∀ statement ∈ deleteSubtreeStatements, faults statement = none)
    (herror : (sqliteDelete faults db (base ++ [pathDelimiter]) cascadingSubtree).1 = 0) :
    ∀ d ∈ db.tables.documents, ¬ Covers base d.fullPath := by
  obtain ⟨hglob, hattributes, hdocuments, hbranch⟩ := hC
  rw [sqliteDelete_subtree, deleteSubTree_eq hattributes hdocuments] at herror
  split at hbranch
  · rename_i hbelow
    obtain ⟨d, hd, hdir⟩ := hbelow
    obtain ⟨-, -, hstays⟩ := deleteExact_base hw hbranch.2.1 hbranch.2.2
    have hne : d.fullPath ≠ canonicalPath base :=
      fun heq => not_prefix_canonicalPath base (heq ▸ hdir)
    have hcount := countP_eq_zero.mp (Int.natCast_eq_zero.mp herror) d (hstays d hd hne)
    exact absurd ((hglob d hd).mpr hdir) hcount
  · rename_i hbelow
    obtain ⟨-, -, ⟨statement, hmem, hfails⟩ | habsent⟩ := hbranch
    · exact absurd (hnone statement hmem) hfails
    · rintro d hd (hbase | hdir)
      · exact habsent d hd hbase
      · exact hbelow ⟨d, hd, hdir⟩

end Operations

section Transactions

variable {request : Request}

theorem beginTransaction_eq (faults : Faults) (hcommitted : db.committed = db.tables) :
    ∃ transaction, (beginTransaction faults db).2 = { db with transaction := transaction } ∧
      transaction.getD db.tables = db.tables ∧
        (faults .begin = none → transaction = some db.tables) := by
  unfold beginTransaction
  cases hbegin : faults .begin with
  | some failure => exact ⟨db.transaction, rfl, hcommitted, nofun⟩
  | none =>
    cases htransaction : db.transaction with
    | none => exact ⟨some db.tables, rfl, rfl, fun _ => rfl⟩
    | some t =>
      have ht : t = db.tables := by
        rw [SqliteDB.committed, htransaction] at hcommitted
        exact hcommitted
      subst ht
      have hdb : db = { db with transaction := some db.tables } := by rw [← htransaction]
      exact ⟨some db.tables, hdb, rfl, fun _ => rfl⟩

theorem commitTransaction_eq (h : faults .commit = none) :
    (commitTransaction faults db).2.tables = db.tables ∧
      (commitTransaction faults db).2.committed = db.tables := by
  unfold commitTransaction
  rw [h]
  cases htransaction : db.transaction with
  | none =>
    refine ⟨rfl, ?_⟩
    rw [SqliteDB.committed, htransaction]
    rfl
  | some t => exact ⟨rfl, rfl⟩

theorem rollbackTransaction_eq {t : Tables} (h : db.transaction.getD t = t)
    (htables : db.tables = t ∨ db.transaction = some t ∧ faults .rollback = none) :
    (rollbackTransaction faults db).2.tables = t ∧
      (rollbackTransaction faults db).2.committed = t := by
  unfold rollbackTransaction
  rcases htables with rfl | ⟨htransaction, hrollback⟩
  · cases faults .rollback with
    | some failure => exact ⟨rfl, h⟩
    | none =>
      cases htransaction : db.transaction with
      | none =>
        refine ⟨rfl, ?_⟩
        rw [SqliteDB.committed, htransaction]
        rfl
      | some t =>
        rw [htransaction] at h
        exact ⟨h, h⟩
  · rw [hrollback, htransaction]
    exact ⟨rfl, rfl⟩

/-- An operation in a transaction of its own. -/
structure Transacted (db : SqliteDB) (request : Request) (r : Outcome × SqliteDB) : Prop where
  success : r.1 = .success →
    request.perform db.tables.documentMap = some r.2.tables.documentMap ∧ r.2.tables.WellFormed
  error : r.1 = .error → r.2.tables = db.tables
  committed : r.2.committed = r.2.tables

theorem inTransaction_transacted (hcommitted : db.committed = db.tables)
    {operation : SqliteDB → Outcome × SqliteDB}
    (h : ∀ transaction, Performs faults { db with transaction := transaction } request
      (operation { db with transaction := transaction })) :
    Transacted db request (inTransaction faults false db operation) := by
  obtain ⟨transaction, hbegin, hgetD, hopen⟩ := beginTransaction_eq faults hcommitted
  have hperforms := h transaction
  unfold inTransaction
  rw [if_neg Bool.false_ne_true, hbegin]
  rcases hr : operation { db with transaction := transaction } with ⟨outcome, db'⟩
  rw [hr] at hperforms
  obtain ⟨htransaction, hsuccess, herror⟩ := hperforms
  cases outcome with
  | success =>
    obtain ⟨hperform, hw, hcommit⟩ := hsuccess rfl
    obtain ⟨htables, hcommitted'⟩ := @commitTransaction_eq faults db' hcommit
    refine ⟨fun _ => ⟨?_, ?_⟩, nofun, hcommitted'.trans htables.symm⟩
    · rw [htables, hperform]
    · rw [htables]
      exact hw
  | error =>
    have hrestores : db'.tables = db.tables ∨
        db'.transaction = some db.tables ∧ faults .rollback = none := by
      rcases herror rfl with hsame | ⟨hbegun, hrollback⟩
      · exact .inl hsame
      · exact .inr ⟨htransaction.trans (hopen hbegun), hrollback⟩
    obtain ⟨htables, hcommitted'⟩ := @rollbackTransaction_eq faults db' db.tables
      (htransaction ▸ hgetD) hrestores
    exact ⟨nofun, fun _ => htables, hcommitted'.trans htables.symm⟩

theorem outcome_inTransaction (operation : SqliteDB → Outcome × SqliteDB) :
    (inTransaction faults false db operation).1 =
      (operation (beginTransaction faults db).2).1 := by
  unfold inTransaction
  rcases operation (beginTransaction faults db).2 with ⟨_ | _, db'⟩
  · rfl
  · rfl

end Transactions

/-! ## Runs -/

/-- The invariant: the tables are well formed and committed, and the contents are those that were
written last. -/
structure DriverInv (s : DriverState) : Prop where
  wellFormed : s.db.tables.WellFormed
  committed : s.db.committed = s.db.tables
  written : ∀ p, (s.db.tables.documentMap (canonicalPath p)).map Document.content =
    lastWritten p s.history

section Runs

variable {s : DriverState} {e : DriverEvent}

theorem run_transacted (h : DriverInv s) (hC : DriverCondition s e) :
    Transacted s.db e.request (e.run s.db) := by
  obtain ⟨request, faults⟩ := e
  let inside (transaction : Option Tables) : SqliteDB := { s.db with transaction := transaction }
  cases request with
  | create p content searchAttributes =>
    simp only [run, Driver.create]
    exact inTransaction_transacted h.committed fun transaction =>
      @create_performs faults (inside transaction) p content searchAttributes h.wellFormed hC
  | update p content searchAttributes =>
    simp only [run, Driver.update]
    exact inTransaction_transacted h.committed fun transaction =>
      @update_performs faults (inside transaction) p content searchAttributes h.wellFormed hC
  | delete p =>
    simp only [run, Driver.delete]
    exact inTransaction_transacted h.committed fun transaction =>
      @delete_performs faults (inside transaction) p h.wellFormed hC.1 hC.2
  | deleteSubtree base =>
    simp only [run, Driver.delete]
    exact inTransaction_transacted h.committed fun transaction =>
      @deleteSubtree_performs faults (inside transaction) base h.wellFormed hC

theorem perform_of_deleteSubtree_error (h : DriverInv s) {base : Text} {faults : Faults}
    (hC : SubtreeCondition faults s.db base)
    (hnone : ∀ statement ∈ deleteSubtreeStatements, faults statement = none)
    (herror : (run ⟨.deleteSubtree base, faults⟩ s.db).1 = .error) :
    (Request.deleteSubtree base).perform s.db.tables.documentMap =
      some s.db.tables.documentMap := by
  simp only [run, Driver.delete] at herror
  obtain ⟨transaction, hbegin, -, -⟩ := beginTransaction_eq faults h.committed
  rw [outcome_inTransaction, hbegin] at herror
  have hrows : (sqliteDelete faults { s.db with transaction := transaction }
      (base ++ [pathDelimiter]) cascadingSubtree).1 = 0 := by
    by_contra hne
    rw [if_neg hne] at herror
    cases herror
  have habsent := @documents_of_deleteSubtree_error faults
    { s.db with transaction := transaction } base h.wellFormed hC hnone hrows
  rw [Request.perform, Option.some_inj]
  funext path
  by_cases hcovers : Covers base path
  · have hfind : Table.find DocumentRow.fullPath path s.db.tables.documents = none :=
      Table.find_eq_none.mpr fun d hd heq => habsent d hd (heq ▸ hcovers)
    rw [if_pos hcovers, Tables.documentMap, hfind]
    rfl
  · rw [if_neg hcovers]

theorem DriverInv.operationKept (h : DriverInv s) (hC : DriverCondition s e) :
    OperationKept s e := by
  have ht := run_transacted h hC
  refine ⟨fun hsuccess => ⟨(ht.success hsuccess).1, ht.committed⟩, ht.error, ?_⟩
  intro base hrequest hnone
  cases houtcome : (e.run s.db).1 with
  | success => exact (ht.success houtcome).1
  | error =>
    rw [ht.error houtcome]
    obtain ⟨request, faults⟩ := e
    subst hrequest
    exact perform_of_deleteSubtree_error h hC hnone houtcome

theorem content_perform {m m' : DocumentMap} {request : Request}
    {history : List (Request × Outcome)} (hperform : request.perform m = some m')
    (hm : ∀ p, (m (canonicalPath p)).map Document.content = lastWritten p history) (p : Text) :
    (m' (canonicalPath p)).map Document.content =
      lastWritten p ((request, .success) :: history) := by
  have hwritten : ∀ (q : Text) (d : Document),
      ((Function.update m (canonicalPath q) (some d)) (canonicalPath p)).map Document.content =
        if canonicalPath q = canonicalPath p then some d.content else lastWritten p history := by
    intro q d
    split_ifs with hpath
    · rw [hpath, Function.update_self]
      rfl
    · rw [Function.update_of_ne (Ne.symm hpath), hm]
  cases request with
  | create q content searchAttributes =>
    rw [Request.perform] at hperform
    split at hperform
    · cases hperform
    · obtain ⟨attributes, -, rfl⟩ := Option.map_eq_some_iff.mp hperform
      exact hwritten q _
  | update q content searchAttributes =>
    rw [Request.perform] at hperform
    split at hperform
    · obtain ⟨attributes, -, rfl⟩ := Option.map_eq_some_iff.mp hperform
      exact hwritten q _
    · cases hperform
  | delete q =>
    rw [Request.perform] at hperform
    rw [lastWritten]
    split at hperform
    · cases hperform
      split_ifs with hpath
      · rw [hpath, Function.update_self]
        rfl
      · rw [Function.update_of_ne (Ne.symm hpath), hm]
    · cases hperform
  | deleteSubtree base =>
    cases hperform
    rw [lastWritten]
    dsimp only
    split_ifs
    · rfl
    · exact hm p

theorem driverStep_eq (s : DriverState) (e : DriverEvent) :
    driverStep s e = some ⟨(e.run s.db).2, (e.request, (e.run s.db).1) :: s.history⟩ := rfl

theorem DriverInv.step (h : DriverInv s) (hC : DriverCondition s e) {s' : DriverState}
    (hs : driverStep s e = some s') : DriverInv s' := by
  have ht := run_transacted h hC
  rw [driverStep_eq] at hs
  obtain rfl := Option.some.inj hs
  cases houtcome : (e.run s.db).1 with
  | success =>
    obtain ⟨hperform, hw⟩ := ht.success houtcome
    exact ⟨hw, ht.committed, content_perform hperform h.written⟩
  | error =>
    have htables := ht.error houtcome
    exact ⟨htables ▸ h.wellFormed, ht.committed, fun p => htables ▸ h.written p⟩

theorem DriverInv.isDocumentMap (h : DriverInv s) : IsDocumentMap s := by
  refine ⟨fun p => ?_, h.wellFormed.owned⟩
  rw [← h.written, documentMap_canonicalPath h.wellFormed]
  unfold Driver.retrieve sqliteRetrieve
  cases hfind : s.db.tables.find p with
  | none => rfl
  | some d =>
    have hne := h.wellFormed.content_ne d (mem_of_find h.wellFormed hfind).1
    exact if_neg fun hlen => hne (eq_nil_of_length_eq_zero hlen)

theorem driverInv_initial : DriverInv .initial :=
  ⟨⟨nodup_nil, nodup_nil, nofun, nofun, nofun, nofun⟩, rfl, fun _ => rfl⟩

end Runs

end Ong.StorageDriver
