import Ong.Scl.ContentInstancesTrim

/-!
# Retrieves

The content instances of a collection are also retrieved as its latest and its oldest: the latest is
the path that the collection keeps as an attribute, the oldest is the first of a search.

## Main results

* `retrieveXoResource_latest`, `retrieveXoResource_oldest`: what the two modes read
-/

namespace Ong.Scl

open M2M ContentInstances

inductive RetrieveMode
  | storageRetrieve | storageRetrieveWithConfig | storageLatest | storageOldest

/-- `ATTR_LATEST`, which only the collections of content instances have. -/
def Resource.latest : Resource → Option Path
  | .contentInstances r => r.latest
  | _ => none

variable (storage : Storage)

/-- `RM_STORAGE_RETRIEVE_WITH_CONFIG`, of a container without a storage configuration. -/
def retrieveWithConfig (resourcePath : Path) : Option Resource :=
  (storage.lookup resourcePath.dropLast.dropLast).bind fun _ => storage.lookup resourcePath

def retrieveXoResource (retrieveMode : RetrieveMode) (resourcePath : Path) : Option Resource :=
  match retrieveMode with
  | .storageRetrieve => storage.lookup resourcePath
  | .storageRetrieveWithConfig => retrieveWithConfig storage resourcePath
  | .storageLatest =>
    (storage.lookup resourcePath.dropLast).bind fun contentInstances =>
      contentInstances.latest.bind (retrieveWithConfig storage)
  | .storageOldest =>
    (search storage resourcePath.dropLast (fun _ => true) 1).head?.map fun c =>
      .contentInstance c.2

section Retrieve

variable {storage} {path : Path}

/-- The latest is read where the collection says that it is. -/
theorem retrieveXoResource_latest {r : ContentInstances} {c : Container} {name : String}
    (hc : storage.lookup path.dropLast = some (.container c))
    (hr : storage.lookup path = some (.contentInstances r))
    (hlatest : r.latest = some (childPath path name)) :
    retrieveXoResource storage .storageLatest (path ++ ["latest"]) =
      storage.lookup (childPath path name) := by
  have hparent : (childPath path name).dropLast = path := List.dropLast_concat
  unfold retrieveXoResource
  dsimp only
  rw [List.dropLast_concat, hr, Option.bind_some, Resource.latest, hlatest, Option.bind_some,
    retrieveWithConfig, hparent, hc, Option.bind_some]

theorem retrieveXoResource_latest_none {r : ContentInstances}
    (hr : storage.lookup path = some (.contentInstances r)) (hlatest : r.latest = none) :
    retrieveXoResource storage .storageLatest (path ++ ["latest"]) = none := by
  unfold retrieveXoResource
  rw [List.dropLast_concat, hr, Option.bind_some, Resource.latest, hlatest, Option.bind_none]

/-- **The oldest is the instance with the least name**. -/
theorem retrieveXoResource_oldest (storage : Storage) (path : Path) :
    match retrieveXoResource storage .storageOldest (path ++ ["oldest"]) with
    | none => childInstances storage path = []
    | some resource => ∃ c ∈ childInstances storage path, resource = .contentInstance c.2 ∧
        ∀ d ∈ childInstances storage path, c.1 ≤ d.1 := by
  unfold retrieveXoResource
  rw [List.dropLast_concat]
  cases hfound : search storage path (fun _ => true) 1 with
  | nil =>
    refine List.eq_nil_iff_forall_not_mem.mpr fun c hc => ?_
    have hfalse := search_eq_nil hfound c hc
    cases hfalse
  | cons c found =>
    obtain ⟨hc, -, hleast⟩ := search_first hfound
    exact ⟨c, hc, rfl, fun d hd => hleast d hd rfl⟩

end Retrieve

end Ong.Scl
