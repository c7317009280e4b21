import Mathlib.Data.List.Find
import Ong.StorageDriver.StorageRequestDriverExecutor

/-!
# The documents by path

What the driver is for: a finite map from paths to documents, each with its content and its search
attributes.  The tables stand for the map that has, under the path of each row, the content of the
row and the attributes of its identifier.

## Main results

* `documentMap_insert`, `documentMap_rewrite`, `documentMap_remove`: the maps that they stand for
-/

namespace Ong.StorageDriver

open Tables Table List Function

structure Document where
  content : Content
  attributes : List Attribute
  deriving DecidableEq

/-- The documents by canonical path. -/
abbrev DocumentMap := Text → Option Document

/-- The base path or a path below it. -/
def Covers (base path : Text) : Prop :=
  path = canonicalPath base ∨ base ++ [pathDelimiter] <+: path

instance (base path : Text) : Decidable (Covers base path) := inferInstanceAs (Decidable (_ ∨ _))

/-- The columns of an attribute, which needs a name. -/
def InternalAttribute.columns (attr : InternalAttribute) : Option Attribute :=
  attr.name.map fun name => ⟨name, attr.stringValue, attr.intValue, attr.dateValue, attr.type⟩

/-- The search attributes of a request, as they are to be stored. -/
def storedAttributes (searchAttributes : Option (List SearchAttribute)) : Option (List Attribute) :=
  (Driver.internalAttributes searchAttributes).bind fun attrs =>
    attrs.mapM InternalAttribute.columns

/-- What an operation that succeeds makes of the map; `none` when it may not succeed. -/
def Request.perform (m : DocumentMap) : Request → Option DocumentMap
  | .create fullPath content searchAttributes =>
    if (m (canonicalPath fullPath)).isSome then none
    else (storedAttributes searchAttributes).map fun attributes =>
      Function.update m (canonicalPath fullPath) (some ⟨content, attributes⟩)
  | .update fullPath content searchAttributes =>
    if (m (canonicalPath fullPath)).isSome then
      (storedAttributes searchAttributes).map fun attributes =>
        Function.update m (canonicalPath fullPath) (some ⟨content, attributes⟩)
    else none
  | .delete fullPath =>
    if (m (canonicalPath fullPath)).isSome then
      some (Function.update m (canonicalPath fullPath) none)
    else none
  | .deleteSubtree base => some fun path => if Covers base path then none else m path

/-! ## The tables as a map -/

def DocumentRow.fullPath (d : DocumentRow) : Text := d.path ++ d.name

/-- The attributes of a document, in the order of their insertion. -/
def Tables.attributesOf (t : Tables) (id : Int) : List Attribute :=
  (t.attributes.filter fun a => a.documentId == id).map AttributeRow.columns

def Tables.documentOf (t : Tables) (d : DocumentRow) : Document := ⟨d.content, t.attributesOf d.id⟩

def Tables.documentMap (t : Tables) : DocumentMap := fun path =>
  (Table.find DocumentRow.fullPath path t.documents).map t.documentOf

/-- The invariant of the tables; the content of a document is not empty. -/
structure Tables.WellFormed (t : Tables) : Prop where
  id_nodup : (t.documents.map DocumentRow.id).Nodup
  fullPath_nodup : (t.documents.map DocumentRow.fullPath).Nodup
  id_pos : ∀ d ∈ t.documents, 0 < d.id
  pathName : ∀ d ∈ t.documents, IsPathName d.pathName
  content_ne : ∀ d ∈ t.documents, d.content ≠ []
  owned : ∀ a ∈ t.attributes, ∃ d ∈ t.documents, d.id = a.documentId

variable {d : DocumentRow} {t : Tables}

section Find

variable {p : Text}

theorem pathName_eq_iff (h : IsPathName d.pathName) (p : Text) :
    d.pathName = parseFullPath p ↔ d.fullPath = canonicalPath p := by
  constructor
  · intro heq
    rw [← fullPath_parseFullPath, ← heq]
    rfl
  · intro heq
    rw [← parseFullPath_canonicalPath, ← heq]
    exact (parseFullPath_fullPath h).symm

theorem find_eq (h : t.WellFormed) (p : Text) :
    t.find p = find DocumentRow.fullPath (canonicalPath p) t.documents := by
  refine find?_congr fun d hd => ?_
  rw [decide_eq_decide]
  exact pathName_eq_iff (h.pathName d hd) p

theorem documentMap_canonicalPath (h : t.WellFormed) (p : Text) :
    t.documentMap (canonicalPath p) = (t.find p).map t.documentOf := by
  rw [Tables.documentMap, find_eq h]

theorem mem_of_find (h : t.WellFormed) (hd : t.find p = some d) :
    d ∈ t.documents ∧ d.fullPath = canonicalPath p := by
  rw [find_eq h] at hd
  exact ⟨Table.mem_of_find hd, key_of_find hd⟩

theorem find_of_mem (h : t.WellFormed) (hd : d ∈ t.documents) (hp : d.fullPath = canonicalPath p) :
    t.find p = some d := by
  rw [find_eq h]
  exact (find_eq_some h.fullPath_nodup).mpr ⟨hd, hp⟩

theorem find_eq_none (h : t.WellFormed) :
    t.find p = none ↔ ∀ d ∈ t.documents, d.fullPath ≠ canonicalPath p := by
  rw [find_eq h, Table.find_eq_none]

end Find

/-! ## Insertion -/

/-- The rows of a document's attributes. -/
def attributeRows (id : Int) (attributes : List Attribute) : List AttributeRow :=
  attributes.map fun a => ⟨id, a⟩

/-- The tables with one more document. -/
def Tables.insert (t : Tables) (d : DocumentRow) (attributes : List Attribute) : Tables :=
  ⟨t.documents ++ [d], t.attributes ++ attributeRows d.id attributes⟩

theorem documentId_of_mem_attributeRows {id : Int} {attributes : List Attribute} {a : AttributeRow}
    (h : a ∈ attributeRows id attributes) : a.documentId = id := by
  obtain ⟨_, _, rfl⟩ := mem_map.mp h
  rfl

theorem attributesOf_append_self (t : Tables) (id : Int) (attributes : List Attribute)
    (h : ∀ a ∈ t.attributes, a.documentId ≠ id) (documents : List DocumentRow) :
    attributesOf ⟨documents, t.attributes ++ attributeRows id attributes⟩ id =
      attributes := by
  have hold : t.attributes.filter (fun a => a.documentId == id) = [] := by
    simpa [filter_eq_nil_iff] using h
  have hnew : (attributeRows id attributes).filter (fun a => a.documentId == id) =
      attributeRows id attributes := by
    rw [filter_eq_self]
    intro a ha
    rw [documentId_of_mem_attributeRows ha, beq_self_eq_true]
  unfold attributesOf
  rw [filter_append, hold, hnew, nil_append, attributeRows, map_map]
  exact map_id _

theorem attributesOf_append_of_ne (t : Tables) {id id' : Int} (h : id' ≠ id)
    (attributes : List Attribute) (documents : List DocumentRow) :
    attributesOf ⟨documents, t.attributes ++ attributeRows id attributes⟩ id' =
      t.attributesOf id' := by
  have hnew : (attributeRows id attributes).filter (fun a => a.documentId == id') = [] := by
    rw [filter_eq_nil_iff]
    intro a ha heq
    exact h ((beq_iff_eq.mp heq).symm.trans (documentId_of_mem_attributeRows ha))
  unfold attributesOf
  rw [filter_append, hnew, append_nil]

variable {attributes : List Attribute}

section Insert

theorem Tables.WellFormed.attributes_ne (h : t.WellFormed) {id : Int}
    (hid : ∀ d ∈ t.documents, d.id ≠ id) : ∀ a ∈ t.attributes, a.documentId ≠ id := by
  intro a ha heq
  obtain ⟨d, hd, hda⟩ := h.owned a ha
  exact hid d hd (hda.trans heq)

section

variable (h : t.WellFormed) (hid : ∀ d' ∈ t.documents, d'.id ≠ d.id)
  (hpath : ∀ d' ∈ t.documents, d'.fullPath ≠ d.fullPath)

include h hid hpath

/-- A row is added. -/
theorem documentMap_insert :
    (t.insert d attributes).documentMap =
      update t.documentMap d.fullPath (some ⟨d.content, attributes⟩) := by
  funext path
  unfold Tables.documentMap Tables.insert
  rw [find_concat hpath]
  by_cases hp : d.fullPath = path
  · rw [if_pos hp, ← hp, update_self, Option.map_some, documentOf,
      attributesOf_append_self t d.id attributes (h.attributes_ne hid)]
  · rw [if_neg hp, update_of_ne (Ne.symm hp)]
    refine Option.map_congr fun d' hd' => ?_
    have hne := hid d' (Table.mem_of_find hd')
    rw [documentOf, documentOf, attributesOf_append_of_ne t hne]

theorem Tables.WellFormed.insert (hpos : 0 < d.id) (hname : IsPathName d.pathName)
    (hcontent : d.content ≠ []) : (t.insert d attributes).WellFormed := by
  constructor
  · rw [Tables.insert, map_append, nodup_append]
    refine ⟨h.id_nodup, nodup_singleton _, fun a ha b hb => ?_⟩
    obtain ⟨d', hd', rfl⟩ := mem_map.mp ha
    rw [map_singleton, mem_singleton] at hb
    exact hb ▸ hid d' hd'
  · rw [Tables.insert, map_append, nodup_append]
    refine ⟨h.fullPath_nodup, nodup_singleton _, fun a ha b hb => ?_⟩
    obtain ⟨d', hd', rfl⟩ := mem_map.mp ha
    rw [map_singleton, mem_singleton] at hb
    exact hb ▸ hpath d' hd'
  · exact forall_mem_append.mpr ⟨h.id_pos, forall_mem_singleton.mpr hpos⟩
  · exact forall_mem_append.mpr ⟨h.pathName, forall_mem_singleton.mpr hname⟩
  · exact forall_mem_append.mpr ⟨h.content_ne, forall_mem_singleton.mpr hcontent⟩
  · refine forall_mem_append.mpr ⟨fun a ha => ?_, fun a ha => ?_⟩
    · obtain ⟨d', hd', heq⟩ := h.owned a ha
      exact ⟨d', mem_append_left _ hd', heq⟩
    · exact ⟨d, mem_append_right _ mem_cons_self,
        (documentId_of_mem_attributeRows ha).symm⟩

end

theorem lt_nextId (t : Tables) : ∀ d ∈ t.documents, d.id < t.nextId := by
  have hle : ∀ ids : List Int, ∀ id ∈ ids, id ≤ ids.foldr max 0 := by
    intro ids id hid
    induction ids with
    | nil => cases hid
    | cons a ids ih =>
      rw [foldr_cons]
      rcases mem_cons.mp hid with rfl | hid
      · omega
      · have := ih hid
        omega
  intro d hd
  exact Int.lt_add_one_of_le (hle _ _ (mem_map_of_mem hd))

theorem nextId_pos (t : Tables) : 0 < t.nextId := by
  have hle : ∀ ids : List Int, 0 ≤ ids.foldr max 0 := by
    intro ids
    induction ids with
    | nil => exact Int.le_refl _
    | cons a ids ih =>
      rw [foldr_cons]
      omega
  exact Int.lt_add_one_of_le (hle _)

end Insert

/-! ## Update -/

/-- The tables with another content and other attributes for a document. -/
def Tables.rewrite (t : Tables) (id : Int) (content : Content) (attributes : List Attribute) :
    Tables :=
  ⟨t.documents.map fun d => if d.id = id then { d with content := content } else d,
    (t.attributes.filter fun a => !(a.documentId == id)) ++ attributeRows id attributes⟩

section Rewrite

variable {content : Content}

theorem attributesOf_filter_of_ne (t : Tables) {id id' : Int} (h : id' ≠ id)
    (documents : List DocumentRow) :
    attributesOf ⟨documents, t.attributes.filter fun a => !(a.documentId == id)⟩ id' =
      t.attributesOf id' := by
  unfold attributesOf
  rw [filter_filter]
  congr 1
  refine filter_congr fun a _ => ?_
  by_cases ha : a.documentId = id'
  · simp [ha, h]
  · simp [ha]

/-- A row is written again. -/
theorem documentMap_rewrite (h : t.WellFormed) (hd : d ∈ t.documents) :
    (t.rewrite d.id content attributes).documentMap =
      update t.documentMap d.fullPath (some ⟨content, attributes⟩) := by
  funext path
  unfold Tables.documentMap Tables.rewrite
  rw [find_map fun d' => by split <;> rfl]
  by_cases hp : path = d.fullPath
  · have hfind : find DocumentRow.fullPath path t.documents = some d :=
      (find_eq_some h.fullPath_nodup).mpr ⟨hd, hp.symm⟩
    have hkept : ∀ a ∈ t.attributes.filter (fun a => !(a.documentId == d.id)),
        a.documentId ≠ d.id := by
      intro a ha
      simpa using (mem_filter.mp ha).2
    have hattributes := attributesOf_append_self
      ⟨t.documents, t.attributes.filter fun a => !(a.documentId == d.id)⟩ d.id attributes hkept
    rw [hfind, hp, update_self, Option.map_some, Option.map_some, if_pos rfl,
      documentOf, hattributes]
  · rw [update_of_ne hp, Option.map_map]
    refine Option.map_congr fun d' hd' => ?_
    have hne : d'.id ≠ d.id := by
      intro heq
      apply hp
      rw [← key_of_find hd', eq_of_key_eq h.id_nodup (Table.mem_of_find hd') hd heq]
    have happend := attributesOf_append_of_ne
      ⟨t.documents, t.attributes.filter fun a => !(a.documentId == d.id)⟩ hne attributes
    have hfilter := attributesOf_filter_of_ne t hne t.documents
    rw [comp_apply, if_neg hne, documentOf, happend, hfilter, documentOf]

theorem Tables.WellFormed.rewrite (h : t.WellFormed) (hd : d ∈ t.documents)
    (hcontent : content ≠ []) : (t.rewrite d.id content attributes).WellFormed := by
  have hmap : ∀ {β : Type} (f : DocumentRow → β),
      (∀ d' : DocumentRow, f { d' with content := content } = f d') →
      ((t.rewrite d.id content attributes).documents.map f) = t.documents.map f := by
    intro β f hf
    rw [Tables.rewrite, map_map]
    refine map_congr_left fun d' _ => ?_
    rw [comp_apply]
    split
    · exact hf d'
    · rfl
  have hmem : ∀ d' ∈ (t.rewrite d.id content attributes).documents, ∃ d₀ ∈ t.documents,
      d'.id = d₀.id ∧ d'.pathName = d₀.pathName ∧
        (d'.content = content ∨ d'.content = d₀.content) := by
    intro d' hd'
    obtain ⟨d₀, hd₀, rfl⟩ := mem_map.mp hd'
    refine ⟨d₀, hd₀, ?_⟩
    split
    · exact ⟨rfl, rfl, .inl rfl⟩
    · exact ⟨rfl, rfl, .inr rfl⟩
  constructor
  · rw [hmap DocumentRow.id fun _ => rfl]
    exact h.id_nodup
  · rw [hmap DocumentRow.fullPath fun _ => rfl]
    exact h.fullPath_nodup
  · intro d' hd'
    obtain ⟨d₀, hd₀, hid, -, -⟩ := hmem d' hd'
    exact hid ▸ h.id_pos d₀ hd₀
  · intro d' hd'
    obtain ⟨d₀, hd₀, -, hname, -⟩ := hmem d' hd'
    exact hname ▸ h.pathName d₀ hd₀
  · intro d' hd'
    obtain ⟨d₀, hd₀, -, -, hnew | hold⟩ := hmem d' hd'
    · rwa [hnew]
    · rw [hold]
      exact h.content_ne d₀ hd₀
  · have howner : ∀ d₀ ∈ t.documents,
        ∃ d' ∈ (t.rewrite d.id content attributes).documents, d'.id = d₀.id := by
      intro d₀ hd₀
      refine ⟨_, mem_map_of_mem hd₀, ?_⟩
      split <;> rfl
    refine forall_mem_append.mpr ⟨fun a ha => ?_, fun a ha => ?_⟩
    · obtain ⟨d₀, hd₀, heq⟩ := h.owned a (mem_filter.mp ha).1
      exact heq ▸ howner d₀ hd₀
    · rw [documentId_of_mem_attributeRows ha]
      exact howner d hd

end Rewrite

/-! ## Deletion -/

/-- The tables without the documents that meet `q` and their attributes. -/
def Tables.remove (t : Tables) (q : DocumentRow → Bool) : Tables :=
  ⟨t.documents.filter fun d => !q d,
    t.attributes.filter fun a => !t.documents.any fun d => d.id == a.documentId && q d⟩

section Remove

variable {q : DocumentRow → Bool}

theorem mem_attributes_remove {a : AttributeRow} :
    a ∈ (t.remove q).attributes ↔
      a ∈ t.attributes ∧ ∀ d ∈ t.documents, d.id = a.documentId → q d = false := by
  simp [remove]

theorem attributesOf_remove (h : t.WellFormed) (hd : d ∈ t.documents) (hq : q d = false) :
    (t.remove q).attributesOf d.id = t.attributesOf d.id := by
  unfold attributesOf remove
  rw [filter_filter]
  congr 1
  refine filter_congr fun a _ => ?_
  by_cases ha : a.documentId = d.id
  · have hany : (t.documents.any fun d' => d'.id == a.documentId && q d') = false := by
      rw [any_eq_false]
      intro d' hd' hboth
      rw [Bool.and_eq_true, beq_iff_eq, ha] at hboth
      rw [eq_of_key_eq h.id_nodup hd' hd hboth.1, hq] at hboth
      cases hboth.2
    rw [hany, Bool.not_false, Bool.and_true]
  · rw [beq_false_of_ne ha, Bool.false_and]

/-- Rows are removed. -/
theorem documentMap_remove (h : t.WellFormed) (path : Text) :
    (t.remove q).documentMap path =
      ((find DocumentRow.fullPath path t.documents).filter fun d => !q d).map
        t.documentOf := by
  rw [← find_filter h.fullPath_nodup]
  refine Option.map_congr fun d hd => ?_
  have hmem := mem_filter.mp (Table.mem_of_find hd)
  rw [documentOf, documentOf,
    attributesOf_remove h hmem.1 (Bool.not_eq_true' _ |>.mp hmem.2)]

theorem documentMap_remove_id (h : t.WellFormed) (hd : d ∈ t.documents) :
    (t.remove fun d' => d'.id == d.id).documentMap =
      update t.documentMap d.fullPath none := by
  funext path
  rw [documentMap_remove h]
  by_cases hp : path = d.fullPath
  · have hfind : find DocumentRow.fullPath path t.documents = some d :=
      (find_eq_some h.fullPath_nodup).mpr ⟨hd, hp.symm⟩
    rw [hfind, hp, update_self]
    simp
  · rw [update_of_ne hp, Tables.documentMap]
    congr 1
    cases hd' : find DocumentRow.fullPath path t.documents with
    | none => rfl
    | some d' =>
      have hne : d'.id ≠ d.id := by
        intro heq
        apply hp
        rw [← key_of_find hd', eq_of_key_eq h.id_nodup (Table.mem_of_find hd') hd heq]
      simp [hne]

theorem Tables.WellFormed.remove (h : t.WellFormed) : (t.remove q).WellFormed := by
  have hsub : (t.remove q).documents.Sublist t.documents := filter_sublist
  refine ⟨h.id_nodup.sublist (hsub.map _), h.fullPath_nodup.sublist (hsub.map _),
    fun d hd => h.id_pos d (hsub.subset hd), fun d hd => h.pathName d (hsub.subset hd),
    fun d hd => h.content_ne d (hsub.subset hd), fun a ha => ?_⟩
  obtain ⟨ha, hkept⟩ := mem_attributes_remove.mp ha
  obtain ⟨d, hd, heq⟩ := h.owned a ha
  exact ⟨d, mem_filter.mpr ⟨hd, by rw [hkept d hd heq]; rfl⟩, heq⟩

end Remove

end Ong.StorageDriver
