import Mathlib.Data.List.Nodup
import Ong.Lib.Footprint
import Ong.Lib.Run
import Ong.Lib.TreeMap

/-!
# Multi-maps on one heap

The multi-maps of the utilities keep the values of a key in an `ArrayList` of the heap once there
are two of them.  The operations change such a list in place, and the copy of a multi-map has the
same lists.

## Main results

* `Keeps`: what an operation on one multi-map keeps, with one lemma for each of them
* `along_iterated`: in a run of allowed operations every multi-map counts its pairs, its iteration
  visits them, and no operation changes another multi-map
-/

namespace Ong.Util.MultiMapHeap

open List Option

variable {κ ρ ν : Type*} [LinearOrder ρ] {rank : κ → ρ}

section Model

/-- A reference: `null`, to an `ArrayList`, or to an object of another class. -/
inductive Obj (ν : Type*) where
  | null
  | arrayList (address : ℕ)
  | other (value : ν)
deriving DecidableEq

/-- The exceptions that the operations throw. -/
inductive Exn where
  | indexOutOfBounds
  | noSuchElement
  | nullPointer
  | concurrentModification
deriving DecidableEq

/-- The `ArrayList`s. -/
abbrev Lists (ν : Type*) := Heap (List (Obj ν))

/-- The fields of a `MultiMap`. -/
structure Fields (rank : κ → ρ) (ν : Type*) where
  size : ℤ
  map : TreeMap rank (Obj ν)

/-- What a method leaves and returns.  A `void` method returns `null`. -/
structure Result (rank : κ → ρ) (ν : Type*) where
  lists : Lists ν
  self : Fields rank ν
  returned : Except Exn (Obj ν)

variable (h : Lists ν) (m : Fields rank ν) (k : κ) (v : Obj ν)

/-- `new MultiMap(c)` -/
def new : Fields rank ν := ⟨0, .empty⟩

/-- `new MultiMap(copy)`: the entries, with the same lists, and no count -/
def copy : Fields rank ν := ⟨0, m.map⟩

/-- `map.get(key)` -/
def Fields.original : Obj ν := (m.map.get k).getD .null

def removeAndPut : Result rank ν :=
  match m.original k with
  | .null => ⟨h, ⟨m.size + 1, m.map.put k v⟩, .ok .null⟩
  | .arrayList a => ⟨h, ⟨m.size - (h.cells a).length, m.map.put k v⟩, .ok .null⟩
  | .other _ => ⟨h, ⟨m.size, m.map.put k v⟩, .ok .null⟩

def putFirst : Result rank ν :=
  match m.original k with
  | .null => ⟨h, ⟨m.size + 1, m.map.put k v⟩, .ok .null⟩
  | .arrayList a =>
    match h.cells a with
    | [] => ⟨h, ⟨m.size + 1, m.map⟩, .error .indexOutOfBounds⟩
    | o :: os => ⟨h.write a (v :: o :: os), ⟨m.size + 1, m.map⟩, .ok o⟩
  | .other w =>
    ⟨h.alloc [v, .other w], ⟨m.size + 1, m.map.put k (.arrayList h.fresh)⟩, .ok (.other w)⟩

def putLast : Result rank ν :=
  match m.original k with
  | .null => ⟨h, ⟨m.size + 1, m.map.put k v⟩, .ok .null⟩
  | .arrayList a =>
    match (h.cells a).getLast? with
    | none => ⟨h, ⟨m.size + 1, m.map⟩, .error .indexOutOfBounds⟩
    | some o => ⟨h.write a (h.cells a ++ [v]), ⟨m.size + 1, m.map⟩, .ok o⟩
  | .other w =>
    ⟨h.alloc [.other w, v], ⟨m.size + 1, m.map.put k (.arrayList h.fresh)⟩, .ok (.other w)⟩

def put : Result rank ν := putLast h m k v

/-- `remove`: a list of one value stays a list. -/
def remove : Result rank ν :=
  match m.original k with
  | .arrayList a =>
    match h.cells a with
    | [] => ⟨h, m, .error .indexOutOfBounds⟩
    | o :: os =>
      ⟨h.write a os, ⟨m.size - 1, if os.isEmpty then m.map.remove k else m.map⟩, .ok o⟩
  | .null => ⟨h, ⟨m.size - 1, m.map.remove k⟩, .ok .null⟩
  | .other w => ⟨h, ⟨m.size - 1, m.map.remove k⟩, .ok (.other w)⟩

def removeAll : Result rank ν :=
  match m.original k with
  | .arrayList a =>
    match (h.cells a).getLast? with
    | none => ⟨h, ⟨m.size, m.map.remove k⟩, .error .indexOutOfBounds⟩
    | some o => ⟨h, ⟨m.size - (h.cells a).length, m.map.remove k⟩, .ok o⟩
  | .null => ⟨h, ⟨m.size - 1, m.map.remove k⟩, .ok .null⟩
  | .other w => ⟨h, ⟨m.size - 1, m.map.remove k⟩, .ok (.other w)⟩

def clear : Result rank ν := ⟨h, new, .ok .null⟩

end Model

section Iteration

variable {σ : Type*}

/-- A loop over the entries of a multi-map: where it finds the lists and the count of the
multi-map, which its body can change, and the body. -/
structure Loop (κ ν σ : Type*) where
  lists : σ → Lists ν
  size : σ → ℤ
  body : σ → κ → Obj ν → σ × Option Exn

/-- How the visit of a list ends: at the end of the list, at the end of the iteration, or with an
exception. -/
inductive Visit (σ : Type*) where
  | next (pos : ℤ) (s : σ)
  | done (s : σ)
  | thrown (s : σ) (e : Exn)

variable (l : Loop κ ν σ)

/-- The visit of the values left of the list at `a`, whose iterator was made when it had `n` values.
Lists only grow meanwhile, so that the iterator sees a change by the length. -/
def visitValues (k : κ) (a n : ℕ) : List (Obj ν) → ℤ → σ → Visit σ
  | [], pos, s =>
    if pos = l.size s then .done s
    else if ((l.lists s).cells a).length ≠ n then .thrown s .concurrentModification
    else .next pos s
  | v :: vs, pos, s =>
    if pos = l.size s then .done s
    else if ((l.lists s).cells a).length ≠ n then .thrown s .concurrentModification
    else
      match l.body s k v with
      | (s', some e) => .thrown s' e
      | (s', none) => visitValues k a n vs (pos + 1) s'

/-- The visit of the entries left of the sorted map, after `pos` values.  `hasNext` is
`pos != size()`. -/
def visitEntries : List (κ × Obj ν) → ℤ → σ → σ × Option Exn
  | [], pos, s => if pos = l.size s then (s, none) else (s, some .noSuchElement)
  | (k, o) :: es, pos, s =>
    if pos = l.size s then (s, none)
    else
      match o with
      | .null => (s, some .nullPointer)
      | .arrayList a =>
        let values := (l.lists s).cells a
        match visitValues l k a values.length values pos s with
        | .next pos' s' => visitEntries es pos' s'
        | .done s' => (s', none)
        | .thrown s' e => (s', some e)
      | .other w =>
        match l.body s k (.other w) with
        | (s', some e) => (s', some e)
        | (s', none) => visitEntries es (pos + 1) s'

/-- A loop that collects the pairs and changes nothing. -/
def collect (h : Lists ν) (m : Fields rank ν) : Loop κ ν (List (κ × Obj ν)) where
  lists _ := h
  size _ := m.size
  body visited k o := (visited ++ [(k, o)], none)

/-- The pairs that the iterator of `entrySet` returns, and the exception it ends with. -/
def entrySet (h : Lists ν) (m : Fields rank ν) : List (κ × Obj ν) × Option Exn :=
  visitEntries (collect h m) m.map.entries 0 []

end Iteration

section Steps

/-- The heap, and the multi-maps by number. -/
structure State (rank : κ → ρ) (ν : Type*) where
  lists : Lists ν
  maps : List (Fields rank ν)

/-- The map that `putAll` is given: a multi-map, or another map by its entries. -/
inductive Source (κ ν : Type*) where
  | multiMap (y : ℕ)
  | other (entries : List (κ × Obj ν))

/-- The constructors and the methods that change a multi-map. -/
inductive Op (κ ν : Type*) where
  | new
  | copy (x : ℕ)
  | put (x : ℕ) (k : κ) (v : Obj ν)
  | putFirst (x : ℕ) (k : κ) (v : Obj ν)
  | putLast (x : ℕ) (k : κ) (v : Obj ν)
  | removeAndPut (x : ℕ) (k : κ) (v : Obj ν)
  | remove (x : ℕ) (k : κ)
  | removeAll (x : ℕ) (k : κ)
  | putAll (x : ℕ) (t : Source κ ν)
  | clear (x : ℕ)

/-- The exception of a result. -/
def thrown : Except Exn (Obj ν) → Option Exn
  | .error e => some e
  | .ok _ => none

variable (s : State rank ν) (x : ℕ)

/-- A method of the multi-map `x`. -/
def State.call (f : Lists ν → Fields rank ν → Result rank ν) : Option (State rank ν × Option Exn) :=
  (s.maps[x]?).map fun m =>
    (⟨(f s.lists m).lists, s.maps.set x (f s.lists m).self⟩, thrown (f s.lists m).returned)

/-- `put` in the body of a loop, where the multi-map is there. -/
def State.putIn (k : κ) (v : Obj ν) : State rank ν × Option Exn :=
  (s.call x fun h m => put h m k v).getD (s, none)

def State.size : ℤ := ((s.maps[x]?).map Fields.size).getD 0

/-- `put` of the entries of another map, one after the other -/
def putEach : List (κ × Obj ν) → State rank ν → State rank ν × Option Exn
  | [], s => (s, none)
  | (k, v) :: es, s =>
    match s.putIn x k v with
    | (s', some e) => (s', some e)
    | (s', none) => putEach es s'

/-- `size += n` -/
def State.addSize (n : ℤ) : State rank ν :=
  ⟨s.lists, s.maps.modify x fun m => ⟨m.size + n, m.map⟩⟩

/-- `putAll`, over a loop on a multi-map that can be the same one or have the same lists. -/
def putAll : Source κ ν → Option (State rank ν × Option Exn)
  | .multiMap y =>
    (s.maps[y]?).map fun n =>
      visitEntries ⟨State.lists, fun s => s.size y, fun s k v => s.putIn x k v⟩ n.map.entries 0
        (s.addSize x n.size)
  | .other es => some (putEach x es (s.addSize x es.length))

/-- An operation, with the exception it throws.  It is none of a multi-map that is not there. -/
def perform : Op κ ν → Option (State rank ν × Option Exn)
  | .new => some (⟨s.lists, s.maps ++ [new]⟩, none)
  | .copy x => (s.maps[x]?).map fun m => (⟨s.lists, s.maps ++ [copy m]⟩, none)
  | .put x k v => s.call x fun h m => put h m k v
  | .putFirst x k v => s.call x fun h m => putFirst h m k v
  | .putLast x k v => s.call x fun h m => putLast h m k v
  | .removeAndPut x k v => s.call x fun h m => removeAndPut h m k v
  | .remove x k => s.call x fun h m => remove h m k
  | .removeAll x k => s.call x fun h m => removeAll h m k
  | .putAll x t => (s.maps[x]?).bind fun _ => putAll s x t
  | .clear x => s.call x fun h _ => clear h

/-- The state after an operation. -/
def step (o : Op κ ν) : Option (State rank ν) := (perform s o).map Prod.fst

end Steps

section Content

/-- Where the `ArrayList` is, for a reference to one. -/
def Obj.address : Obj ν → Option ℕ
  | .arrayList a => some a
  | _ => none

/-- An object that is neither `null` nor an `ArrayList`. -/
def Obj.Plain : Obj ν → Prop
  | .other _ => True
  | _ => False

/-- The values under a key. -/
def values (h : Lists ν) : Obj ν → List (Obj ν)
  | .arrayList a => h.cells a
  | o => [o]

/-- The pairs that entries hold, in order. -/
def pairsOf (h : Lists ν) (es : List (κ × Obj ν)) : List (κ × Obj ν) :=
  es.flatMap fun e => (values h e.2).map (Prod.mk e.1)

/-- The pairs that a multi-map holds, in order. -/
def pairs (h : Lists ν) (m : Fields rank ν) : List (κ × Obj ν) := pairsOf h m.map.entries

/-- The `ArrayList`s of entries. -/
def addresses (es : List (κ × Obj ν)) : List ℕ := es.filterMap fun e => e.2.address

/-- What an entry holds can be iterated: an object, or a list that is not empty. -/
def Held (h : Lists ν) : Obj ν → Prop
  | .null => False
  | .arrayList a => h.cells a ≠ []
  | .other _ => True

/-- The invariant of one multi-map. -/
structure Valid (h : Lists ν) (m : Fields rank ν) : Prop where
  held : ∀ e ∈ m.map.entries, Held h e.2
  nodup : (addresses m.map.entries).Nodup
  counted : m.size = (pairs h m).length

variable {h h' : Lists ν} {m m' : Fields rank ν} {es es' l₁ l₂ mid mid' : List (κ × Obj ν)} {k : κ}
  {v : Obj ν}

@[simp] theorem values_other (w : ν) : values h (.other w) = [.other w] := rfl

@[simp] theorem values_arrayList (a : ℕ) : values h (.arrayList a) = h.cells a := rfl

@[simp] theorem pairsOf_nil : pairsOf h ([] : List (κ × Obj ν)) = [] := rfl

@[simp] theorem pairsOf_cons (e : κ × Obj ν) :
    pairsOf h (e :: es) = (values h e.2).map (Prod.mk e.1) ++ pairsOf h es := rfl

@[simp] theorem pairsOf_append : pairsOf h (es ++ es') = pairsOf h es ++ pairsOf h es' :=
  flatMap_append

@[simp] theorem addresses_append : addresses (es ++ es') = addresses es ++ addresses es' :=
  filterMap_append

theorem mem_addresses {a : ℕ} : a ∈ addresses es ↔ ∃ e ∈ es, e.2 = .arrayList a := by
  refine mem_filterMap.trans (exists_congr fun e => and_congr_right fun _ => ?_)
  rcases e with ⟨k, _ | b | w⟩ <;> simp [Obj.address]

theorem values_congr {e : κ × Obj ν} (he : e ∈ es)
    (hcells : ∀ a ∈ addresses es, h'.cells a = h.cells a) : values h' e.2 = values h e.2 := by
  rcases e with ⟨k, _ | a | w⟩
  · rfl
  · exact hcells a (mem_addresses.mpr ⟨_, he, rfl⟩)
  · rfl

theorem pairsOf_congr (hcells : ∀ a ∈ addresses es, h'.cells a = h.cells a) :
    pairsOf h' es = pairsOf h es := by
  exact congrArg flatten (map_congr_left fun e he => by rw [values_congr he hcells])

theorem held_congr {e : κ × Obj ν} (he : e ∈ es)
    (hcells : ∀ a ∈ addresses es, h'.cells a = h.cells a) (hheld : Held h e.2) : Held h' e.2 := by
  rcases e with ⟨k, _ | a | w⟩
  · exact hheld
  · exact (hcells a (mem_addresses.mpr ⟨_, he, rfl⟩)).trans_ne hheld
  · trivial

theorem pairwise_pairsOf (hs : es.Pairwise fun a b => rank a.1 < rank b.1) :
    (pairsOf h es).Pairwise fun a b => rank a.1 ≤ rank b.1 := by
  induction es with
  | nil => exact .nil
  | cons e es ih =>
    obtain ⟨he, hs⟩ := pairwise_cons.mp hs
    refine pairwise_append.mpr ⟨?_, ih hs, fun a ha b hb => ?_⟩
    · exact pairwise_map.mpr (pairwise_of_forall fun _ _ => le_rfl)
    · obtain ⟨-, -, rfl⟩ := mem_map.mp ha
      obtain ⟨f, hf, hb⟩ := mem_flatMap.mp hb
      obtain ⟨-, -, rfl⟩ := mem_map.mp hb
      exact (he f hf).le

theorem Valid.replace (hm : Valid h m) (hes : m.map.entries = l₁ ++ (mid ++ l₂))
    (hes' : m'.map.entries = l₁ ++ (mid' ++ l₂))
    (hcells : ∀ a ∈ addresses (l₁ ++ l₂), h'.cells a = h.cells a)
    (hheld : ∀ e ∈ mid', Held h' e.2) (hnodup : (addresses mid').Nodup)
    (hnew : ∀ a ∈ addresses mid', a ∉ addresses (l₁ ++ l₂))
    (hsize : m'.size + (pairsOf h mid).length = m.size + (pairsOf h' mid').length) :
    Valid h' m' where
  held e he := by
    rw [hes', mem_append, mem_append] at he
    have hold : ∀ e ∈ l₁ ++ l₂, Held h' e.2 := fun e he => by
      refine held_congr he hcells (hm.held e ?_)
      rw [hes, mem_append, mem_append]
      exact (mem_append.mp he).imp_right .inr
    rcases he with he | he | he
    · exact hold e (mem_append_left _ he)
    · exact hheld e he
    · exact hold e (mem_append_right _ he)
  nodup := by
    have hrest := hm.nodup
    rw [hes, addresses_append, addresses_append,
      (perm_append_comm_assoc _ _ _).nodup_iff] at hrest
    rw [hes', addresses_append, addresses_append, (perm_append_comm_assoc _ _ _).nodup_iff]
    refine nodup_append'.mpr ⟨hnodup, hrest.of_append_right, fun a ha hrest => ?_⟩
    exact hnew a ha (addresses_append ▸ hrest)
  counted := by
    have hcount := hm.counted
    have h₁ : pairsOf h' l₁ = pairsOf h l₁ := pairsOf_congr fun a ha =>
      hcells a (addresses_append ▸ mem_append_left _ ha)
    have h₂ : pairsOf h' l₂ = pairsOf h l₂ := pairsOf_congr fun a ha =>
      hcells a (addresses_append ▸ mem_append_right _ ha)
    simp only [pairs, hes, hes', pairsOf_append, length_append, h₁, h₂] at hcount ⊢
    omega

/-- The `ArrayList`s of a multi-map. -/
def own (m : Fields rank ν) : Set ℕ := {a | a ∈ addresses m.map.entries}

theorem mem_own (hes : m.map.entries = l₁ ++ (mid ++ l₂)) {a : ℕ} :
    a ∈ own m ↔ a ∈ addresses mid ∨ a ∈ addresses (l₁ ++ l₂) := by
  change a ∈ addresses m.map.entries ↔ _
  rw [hes]
  simp only [addresses_append, mem_append]
  exact or_left_comm

/-- What an operation on one multi-map keeps: the invariant, and the lists of the others.  It throws
no exception. -/
structure Keeps (h : Lists ν) (m : Fields rank ν) (r : Result rank ν) : Prop where
  valid : Valid r.lists r.self
  reaches : Heap.Reaches (own m) (own r.self) h r.lists
  returned : thrown r.returned = none

theorem keeps_replace (mid mid' : List (κ × Obj ν)) {r : Result rank ν} (hm : Valid h m)
    (hb : ∀ a ∈ own m, a < h.fresh)
    (hes : m.map.entries = l₁ ++ (mid ++ l₂)) (hes' : r.self.map.entries = l₁ ++ (mid' ++ l₂))
    (hfresh : h.fresh ≤ r.lists.fresh)
    (hcells : ∀ a < h.fresh, a ∉ addresses mid → r.lists.cells a = h.cells a)
    (hnew : ∀ a ∈ addresses mid', a ∈ addresses mid ∨ h.fresh ≤ a ∧ a < r.lists.fresh)
    (hheld : ∀ e ∈ mid', Held r.lists e.2) (hnodup : (addresses mid').Nodup)
    (hsize : r.self.size + (pairsOf h mid).length = m.size + (pairsOf r.lists mid').length)
    (hret : thrown r.returned = none) : Keeps h m r := by
  have hapart : ∀ a ∈ addresses mid, a ∉ addresses (l₁ ++ l₂) := by
    have hn := hm.nodup
    rw [hes, addresses_append, addresses_append,
      (perm_append_comm_assoc _ _ _).nodup_iff, ← addresses_append] at hn
    exact fun a ha hrest => (nodup_append'.mp hn).2.2 ha hrest
  have hold : ∀ a ∈ addresses (l₁ ++ l₂), a < h.fresh := fun a ha =>
    hb a ((mem_own hes).mpr (.inr ha))
  refine ⟨hm.replace hes hes' ?_ hheld hnodup ?_ hsize, ⟨hfresh, ?_, ?_, ?_⟩, hret⟩
  · intro a ha
    exact hcells a (hold a ha) fun hmid => hapart a hmid ha
  · intro a ha hrest
    rcases hnew a ha with hmid | ⟨hge, -⟩
    · exact hapart a hmid hrest
    · exact hge.not_gt (hold a hrest)
  · intro a ha
    rcases (mem_own hes').mp ha with hmid' | hrest
    · rcases hnew a hmid' with hmid | ⟨-, hlt⟩
      · exact (hb a ((mem_own hes).mpr (.inl hmid))).trans_le hfresh
      · exact hlt
    · exact (hold a hrest).trans_le hfresh
  · intro a ha
    rcases (mem_own hes').mp ha with hmid' | hrest
    · exact (hnew a hmid').imp (fun hmid => (mem_own hes).mpr (.inl hmid)) And.left
    · exact .inl ((mem_own hes).mpr (.inr hrest))
  · intro a ha hnot
    exact hcells a ha fun hmid => hnot ((mem_own hes).mpr (.inl hmid))

end Content

variable {m : Fields rank ν}

section Operations

variable {h : Lists ν} {k : κ} {v o : Obj ν} {vs : List (Obj ν)} {a : ℕ} {w : ν} {ret : Obj ν}

def Fields.containsKey (m : Fields rank ν) (k : κ) : Prop := (m.map.get k).isSome

theorem original_of_none (hk : m.map.get k = none) : m.original k = .null := by
  rw [Fields.original, hk, getD_none]

theorem original_of_some (hk : m.map.get k = some o) : m.original k = o := by
  rw [Fields.original, hk, getD_some]

theorem Valid.held_of_get (hm : Valid h m) (hk : m.map.get k = some o) : Held h o := by
  obtain ⟨l₁, k', l₂, hes, -⟩ := TreeMap.exists_of_get_some hk
  exact hm.held (k', o) (hes ▸ mem_append_cons_self)

theorem held_of_plain (hv : v.Plain) : Held h v := by
  rcases v with _ | a | w
  · exact hv
  · exact hv.elim
  · trivial

theorem address_of_plain (hv : v.Plain) : v.address = none := by
  rcases v with _ | a | w
  · rfl
  · exact hv.elim
  · rfl

theorem values_of_plain (hv : v.Plain) : values h v = [v] := by
  rcases v with _ | a | w
  · rfl
  · exact hv.elim
  · rfl

section Places

variable (hm : Valid h m) (hb : ∀ a ∈ own m, a < h.fresh)
include hm hb

theorem keeps_first (hk : m.map.get k = none) (hv : v.Plain) :
    Keeps h m ⟨h, ⟨m.size + 1, m.map.put k v⟩, .ok ret⟩ := by
  obtain ⟨l₁, l₂, hes, hput⟩ := TreeMap.exists_of_get_none hk
  have hnone : addresses [(k, v)] = [] := by simp [addresses, address_of_plain hv]
  refine keeps_replace [] [(k, v)] hm hb hes (hput v) le_rfl (fun _ _ _ => rfl) ?_ ?_ ?_ ?_ rfl
  · simp [hnone]
  · exact forall_mem_singleton.mpr (held_of_plain hv)
  · simp [hnone]
  · simp [values_of_plain hv]

theorem keeps_other (hk : m.map.get k = some (.other w)) (hv : v.Plain) :
    Keeps h m ⟨h, ⟨m.size, m.map.put k v⟩, .ok ret⟩ := by
  obtain ⟨l₁, k', l₂, hes, -, hput, -⟩ := TreeMap.exists_of_get_some hk
  have hnone : addresses [(k', v)] = [] := by simp [addresses, address_of_plain hv]
  refine keeps_replace [(k', .other w)] [(k', v)] hm hb hes (hput v) le_rfl (fun _ _ _ => rfl)
    ?_ ?_ ?_ ?_ rfl
  · simp [hnone]
  · exact forall_mem_singleton.mpr (held_of_plain hv)
  · simp [hnone]
  · simp [values_of_plain hv]

theorem keeps_alloc (hk : m.map.get k = some (.other w)) (hvs : vs.length = 2) :
    Keeps h m ⟨h.alloc vs, ⟨m.size + 1, m.map.put k (.arrayList h.fresh)⟩, .ok ret⟩ := by
  obtain ⟨l₁, k', l₂, hes, -, hput, -⟩ := TreeMap.exists_of_get_some hk
  refine keeps_replace [(k', .other w)] [(k', .arrayList h.fresh)] hm hb hes (hput _)
    (Nat.le_succ _) (fun p hp _ => Heap.alloc_cells_of_lt hp) ?_ ?_ ?_ ?_ rfl
  · refine fun p hp => .inr ?_
    obtain rfl : p = h.fresh := by simpa [addresses, Obj.address] using hp
    exact ⟨le_rfl, Nat.lt_succ_self _⟩
  · refine forall_mem_singleton.mpr ?_
    change (h.alloc vs).cells h.fresh ≠ []
    rw [Heap.alloc_cells_fresh, ← length_pos_iff, hvs]
    exact Nat.zero_lt_two
  · exact nodup_singleton _
  · simp [hvs]
    omega

theorem keeps_write (hk : m.map.get k = some (.arrayList a)) (hvs : vs ≠ []) {n : ℤ}
    (hn : n + (h.cells a).length = m.size + vs.length) :
    Keeps h m ⟨h.write a vs, ⟨n, m.map⟩, .ok ret⟩ := by
  obtain ⟨l₁, k', l₂, hes, -⟩ := TreeMap.exists_of_get_some hk
  refine keeps_replace [(k', .arrayList a)] [(k', .arrayList a)] hm hb hes hes le_rfl
    (fun p _ hp => ?_) (fun _ => .inl) ?_ (nodup_singleton _) ?_ rfl
  · refine Heap.write_cells_of_ne fun hpa => hp ?_
    simp [addresses, Obj.address, hpa]
  · refine forall_mem_singleton.mpr ?_
    change (h.write a vs).cells a ≠ []
    rwa [Heap.write_cells_self]
  · simp [hn]

theorem keeps_erase {h' : Lists ν} (hk : m.map.get k = some o) (hfresh : h'.fresh = h.fresh)
    (hcells : ∀ p, o.address ≠ some p → h'.cells p = h.cells p) :
    Keeps h m ⟨h', ⟨m.size - (values h o).length, m.map.remove k⟩, .ok ret⟩ := by
  obtain ⟨l₁, k', l₂, hes, -, -, hremove⟩ := TreeMap.exists_of_get_some hk
  refine keeps_replace [(k', o)] [] hm hb hes hremove hfresh.ge
    (fun p _ hp => hcells p fun ho => hp ?_) (forall_mem_nil _) (forall_mem_nil _)
    nodup_nil ?_ rfl
  · simp [addresses, ho]
  · simp

end Places

variable (hm : Valid h m) (hb : ∀ a ∈ own m, a < h.fresh)
include hm hb

theorem keeps_putLast (hv : m.containsKey k ∨ v.Plain) : Keeps h m (putLast h m k v) := by
  unfold putLast
  cases hk : m.map.get k with
  | none =>
    have hv := hv.resolve_left (by simp [Fields.containsKey, hk])
    rw [original_of_none hk]
    exact keeps_first hm hb hk hv
  | some o =>
    rw [original_of_some hk]
    have ho := hm.held_of_get hk
    rcases o with _ | a | w
    · exact ho.elim
    · dsimp only
      cases hlast : (h.cells a).getLast? with
      | none => exact absurd (getLast?_eq_none_iff.mp hlast) ho
      | some o =>
        refine keeps_write hm hb hk (by simp) ?_
        rw [length_append, length_singleton]
        omega
    · exact keeps_alloc hm hb hk rfl

theorem keeps_putFirst (hv : m.containsKey k ∨ v.Plain) : Keeps h m (putFirst h m k v) := by
  unfold putFirst
  cases hk : m.map.get k with
  | none =>
    have hv := hv.resolve_left (by simp [Fields.containsKey, hk])
    rw [original_of_none hk]
    exact keeps_first hm hb hk hv
  | some o =>
    rw [original_of_some hk]
    have ho := hm.held_of_get hk
    rcases o with _ | a | w
    · exact ho.elim
    · dsimp only
      cases hcells : h.cells a with
      | nil => exact absurd hcells ho
      | cons o os =>
        refine keeps_write hm hb hk (cons_ne_nil _ _) ?_
        rw [hcells]
        simp only [length_cons]
        omega
    · exact keeps_alloc hm hb hk rfl

theorem keeps_removeAndPut (hv : v.Plain) (hk : ∀ a, m.map.get k ≠ some (.arrayList a)) :
    Keeps h m (removeAndPut h m k v) := by
  unfold removeAndPut
  cases hget : m.map.get k with
  | none =>
    rw [original_of_none hget]
    exact keeps_first hm hb hget hv
  | some o =>
    rw [original_of_some hget]
    have ho := hm.held_of_get hget
    rcases o with _ | a | w
    · exact ho.elim
    · exact absurd hget (hk a)
    · exact keeps_other hm hb hget hv

theorem keeps_remove (hk : m.containsKey k) : Keeps h m (remove h m k) := by
  obtain ⟨o, hget⟩ := isSome_iff_exists.mp hk
  have ho := hm.held_of_get hget
  unfold remove
  rw [original_of_some hget]
  rcases o with _ | a | w
  · exact ho.elim
  · dsimp only
    cases hcells : h.cells a with
    | nil => exact absurd hcells ho
    | cons o os =>
      cases os with
      | nil =>
        have hkeeps : Keeps h m ⟨h.write a [], ⟨m.size - (values h (.arrayList a)).length,
            m.map.remove k⟩, .ok o⟩ := by
          refine keeps_erase hm hb hget rfl fun p hp => ?_
          exact Heap.write_cells_of_ne fun hpa => hp (hpa ▸ rfl)
        rw [values_arrayList, hcells] at hkeeps
        exact hkeeps
      | cons o' os =>
        refine keeps_write hm hb hget (cons_ne_nil _ _) ?_
        rw [hcells]
        simp only [length_cons]
        omega
  · exact keeps_erase hm hb hget rfl fun _ _ => rfl

theorem keeps_removeAll (hk : m.containsKey k) : Keeps h m (removeAll h m k) := by
  obtain ⟨o, hget⟩ := isSome_iff_exists.mp hk
  have ho := hm.held_of_get hget
  unfold removeAll
  rw [original_of_some hget]
  rcases o with _ | a | w
  · exact ho.elim
  · dsimp only
    cases hlast : (h.cells a).getLast? with
    | none => exact absurd (getLast?_eq_none_iff.mp hlast) ho
    | some o => exact keeps_erase hm hb hget rfl fun _ _ => rfl
  · exact keeps_erase hm hb hget rfl fun _ _ => rfl

omit hm in
theorem keeps_clear : Keeps h m (clear h) :=
  ⟨⟨forall_mem_nil _, nodup_nil, rfl⟩,
    Heap.reaches_subset hb fun _ ha => absurd ha not_mem_nil, rfl⟩

end Operations

section Visits

variable {h : Lists ν} {es acc : List (κ × Obj ν)} {vs : List (Obj ν)} {k : κ} {a : ℕ} {pos : ℤ}

@[simp] theorem collect_size : (collect h m).size acc = m.size := rfl

@[simp] theorem collect_lists : (collect h m).lists acc = h := rfl

@[simp] theorem collect_body {o : Obj ν} :
    (collect h m).body acc k o = (acc ++ [(k, o)], none) := rfl

theorem visitValues_collect (hle : pos + vs.length ≤ m.size) :
    visitValues (collect h m) k a (h.cells a).length vs pos acc =
      if pos + vs.length = m.size then .done (acc ++ vs.map (Prod.mk k))
      else .next (pos + vs.length) (acc ++ vs.map (Prod.mk k)) := by
  induction vs generalizing pos acc with
  | nil => simp [visitValues]
  | cons v vs ih =>
    rw [length_cons, Int.natCast_add, Int.natCast_one] at hle ⊢
    have hpos : pos ≠ m.size := by omega
    have hnext : pos + 1 + (vs.length : ℤ) = pos + (vs.length + 1) := by omega
    have hrest := @ih (acc ++ [(k, v)]) (pos + 1) (by omega)
    rw [hnext, append_assoc] at hrest
    simpa [visitValues, hpos] using hrest

theorem visitEntries_collect (hheld : ∀ e ∈ es, Held h e.2)
    (hsize : pos + (pairsOf h es).length = m.size) :
    visitEntries (collect h m) es pos acc = (acc ++ pairsOf h es, none) := by
  induction es generalizing pos acc with
  | nil =>
    rw [pairsOf_nil, length_nil, Int.natCast_zero, Int.add_zero] at hsize
    simp [visitEntries, hsize]
  | cons e es ih =>
    obtain ⟨k, o⟩ := e
    obtain ⟨ho, hrest⟩ := forall_mem_cons.mp hheld
    by_cases hpos : pos = m.size
    · have hnil : pairsOf h ((k, o) :: es) = [] := length_eq_zero_iff.mp (by omega)
      simp [visitEntries, hpos, hnil]
    rw [pairsOf_cons, length_append, length_map, Int.natCast_add] at hsize
    rw [pairsOf_cons, ← append_assoc]
    rcases o with _ | a | w
    · exact ho.elim
    · rw [values_arrayList] at hsize ⊢
      simp only [visitEntries, collect_size, collect_lists, if_neg hpos,
        visitValues_collect (by omega : pos + ((h.cells a).length : ℤ) ≤ m.size)]
      by_cases hend : pos + ((h.cells a).length : ℤ) = m.size
      · have hnil : pairsOf h es = [] := length_eq_zero_iff.mp (by omega)
        simp only [if_pos hend, hnil, append_nil]
      · simp only [if_neg hend]
        exact ih hrest (by omega)
    · rw [values_other, length_singleton] at hsize
      have hvisited := @ih (acc ++ [(k, .other w)]) (pos + 1) hrest (by omega)
      simpa [visitEntries, hpos] using hvisited

theorem entrySet_of_valid (hm : Valid h m) : entrySet h m = (pairs h m, none) := by
  refine visitEntries_collect hm.held ?_
  rw [hm.counted, Int.zero_add]
  rfl

end Visits

section Runs

/-- The multi-map that an operation changes. -/
def Op.target : Op κ ν → Option ℕ
  | .new | .copy _ => none
  | .put x _ _ | .putFirst x _ _ | .putLast x _ _ | .removeAndPut x _ _ | .remove x _
  | .removeAll x _ | .putAll x _ | .clear x => some x

/-- No entries. -/
def Source.IsEmpty (s : State rank ν) : Source κ ν → Prop
  | .multiMap y => ∀ m ∈ s.maps[y]?, m.map.entries = []
  | .other es => es = []

/-- The operations after which the counts are right: only an empty multi-map is copied, `putAll` is
given an empty map, a removed key is there, the first value of a key is neither `null` nor an
`ArrayList`, and `removeAndPut` finds no `ArrayList` under the key. -/
def Allowed (s : State rank ν) : Op κ ν → Prop
  | .new | .clear _ => True
  | .copy x => ∀ m ∈ s.maps[x]?, m.map.entries = []
  | .put x k v | .putFirst x k v | .putLast x k v =>
    ∀ m ∈ s.maps[x]?, m.containsKey k ∨ v.Plain
  | .removeAndPut x k v =>
    v.Plain ∧ ∀ m ∈ s.maps[x]?, (m.map.get k).bind Obj.address = none
  | .remove x k | .removeAll x k => ∀ m ∈ s.maps[x]?, m.containsKey k
  | .putAll _ t => t.IsEmpty s

/-- Every multi-map counts its pairs, and its iteration visits each of them once, in the order of
the keys, and ends. -/
def Iterated (s : State rank ν) : Prop :=
  ∀ m ∈ s.maps, m.size = (pairs s.lists m).length ∧ entrySet s.lists m = (pairs s.lists m, none) ∧
    (pairs s.lists m).Pairwise fun a b => rank a.1 ≤ rank b.1

/-- An operation throws no exception and changes no other multi-map. -/
def Frames (s : State rank ν) (o : Op κ ν) : Prop :=
  ∀ t thrown, perform s o = some (t, thrown) → thrown = none ∧
    ∀ y m, s.maps[y]? = some m → o.target ≠ some y →
      t.maps[y]? = some m ∧ pairs t.lists m = pairs s.lists m

/-- The `ArrayList`s of the multi-map `x`. -/
def State.own (s : State rank ν) (x : ℕ) : Set ℕ := (s.maps[x]?).elim ∅ MultiMapHeap.own

/-- The invariant of the multi-maps. -/
structure Sound (s : State rank ν) : Prop where
  valid : ∀ m ∈ s.maps, Valid s.lists m
  apart : Heap.Apart s.own s.lists

variable {s t : State rank ν} {x : ℕ} {es : List (κ × Obj ν)}

theorem own_of_getElem? (hx : s.maps[x]? = some m) : s.own x = own m := by
  rw [State.own, hx, elim_some]

theorem Sound.below (hs : Sound s) (hx : s.maps[x]? = some m) : ∀ a ∈ own m, a < s.lists.fresh := by
  have hb := hs.apart.below x
  rwa [own_of_getElem? hx] at hb

theorem Sound.replace (hs : Sound s) {r : Result rank ν} (hx : s.maps[x]? = some m)
    (hr : Keeps s.lists m r) :
    Sound ⟨r.lists, s.maps.set x r.self⟩ ∧ ∀ y n, s.maps[y]? = some n → y ≠ x →
      pairs r.lists n = pairs s.lists n ∧ (s.maps.set x r.self)[y]? = some n := by
  have hlt : x < s.maps.length := (List.getElem?_eq_some_iff.mp hx).1
  have hreach := hr.reaches
  rw [← own_of_getElem? hx] at hreach
  have hcells : ∀ y n, s.maps[y]? = some n → y ≠ x →
      ∀ a ∈ addresses n.map.entries, r.lists.cells a = s.lists.cells a := by
    intro y n hy hyx a ha
    refine hs.apart.frame hreach hyx ?_
    rw [own_of_getElem? hy]
    exact ha
  refine ⟨⟨fun n hn => ?_, ?_⟩, fun y n hy hyx => ⟨pairsOf_congr (hcells y n hy hyx), ?_⟩⟩
  · obtain ⟨y, hy⟩ := mem_iff_getElem?.mp hn
    by_cases hyx : y = x
    · rw [hyx, getElem?_set_self hlt] at hy
      exact Option.some.inj hy ▸ hr.valid
    · rw [getElem?_set_ne (Ne.symm hyx)] at hy
      have hvalid := hs.valid n (mem_of_getElem? hy)
      refine ⟨fun e he => ?_, hvalid.nodup, ?_⟩
      · exact held_congr he (hcells y n hy hyx) (hvalid.held e he)
      · rw [hvalid.counted, pairs, pairs, pairsOf_congr (hcells y n hy hyx)]
  · refine hs.apart.update (i := x) ?_ fun y hyx => ?_
    · rwa [own_of_getElem? (s := ⟨r.lists, s.maps.set x r.self⟩) (getElem?_set_self hlt)]
    · exact congrArg (Option.elim · ∅ own) (getElem?_set_ne (Ne.symm hyx))
  · rw [getElem?_set_ne hyx.symm, hy]

theorem sound_start (h : Lists ν) : Sound (⟨h, []⟩ : State rank ν) :=
  ⟨forall_mem_nil _, ⟨fun _ _ ha => ha.elim, fun _ _ _ ha => ha.elim⟩⟩

theorem Sound.concat (hs : Sound s) (hm : m.size = 0) (hes : m.map.entries = []) :
    Sound ⟨s.lists, s.maps ++ [m]⟩ ∧
      ∀ (y : ℕ) n, s.maps[y]? = some n → (s.maps ++ [m])[y]? = some n := by
  have hkeep : ∀ (y : ℕ) n, s.maps[y]? = some n → (s.maps ++ [m])[y]? = some n := fun y n hy => by
    rw [getElem?_append_left (List.getElem?_eq_some_iff.mp hy).1, hy]
  refine ⟨⟨fun n hn => ?_, hs.apart.update (i := s.maps.length) ?_ fun y hy => ?_⟩, hkeep⟩
  · rcases mem_append.mp hn with hn | hn
    · exact hs.valid n hn
    · obtain rfl := mem_singleton.mp hn
      refine ⟨?_, ?_, ?_⟩
      · rw [hes]
        exact forall_mem_nil _
      · rw [hes]
        exact nodup_nil
      · rw [hm, pairs, hes]
        rfl
  · refine Heap.reaches_subset (hs.apart.below _) fun a ha => ?_
    rw [own_of_getElem? (s := ⟨s.lists, s.maps ++ [m]⟩) getElem?_concat_length] at ha
    change a ∈ addresses m.map.entries at ha
    rw [hes] at ha
    exact absurd ha not_mem_nil
  · refine congrArg (Option.elim · ∅ own) ?_
    rcases Nat.lt_or_gt_of_ne hy with hlt | hgt
    · exact getElem?_append_left hlt
    · rw [getElem?_eq_none hgt.le]
      refine getElem?_eq_none ?_
      rwa [length_append]

theorem iterated_of_sound (hs : Sound s) : Iterated s := fun m hm =>
  ⟨(hs.valid m hm).counted, entrySet_of_valid (hs.valid m hm), pairwise_pairsOf m.map.sorted⟩

theorem Sound.call (hs : Sound s) {o : Op κ ν} {f : Lists ν → Fields rank ν → Result rank ν}
    (hf : ∀ m, s.maps[x]? = some m → Keeps s.lists m (f s.lists m))
    (hperform : perform s o = s.call x f) (htarget : o.target = some x) (ht : step s o = some t) :
    Frames s o ∧ Sound t := by
  rw [step, hperform, State.call, Option.map_map] at ht
  obtain ⟨m, hx, rfl⟩ := map_eq_some_iff.mp ht
  obtain ⟨hsound, hothers⟩ := hs.replace hx (hf m hx)
  refine ⟨fun t thr hthr => ?_, hsound⟩
  rw [hperform, State.call, hx, map_some, some_inj, Prod.mk.injEq] at hthr
  obtain ⟨rfl, rfl⟩ := hthr
  refine ⟨(hf m hx).returned, fun y n hy hyx => ?_⟩
  exact (hothers y n hy fun h => hyx (h ▸ htarget)).symm

theorem Sound.create (hs : Sound s) {o : Op κ ν} (hm : m.size = 0) (hes : m.map.entries = [])
    (hperform : perform s o = some (⟨s.lists, s.maps ++ [m]⟩, none)) (ht : step s o = some t) :
    Frames s o ∧ Sound t := by
  obtain ⟨hsound, hothers⟩ := hs.concat hm hes
  rw [step, hperform, map_some, some_inj] at ht
  refine ⟨fun u thr hthr => ?_, ht ▸ hsound⟩
  rw [hperform, some_inj, Prod.mk.injEq] at hthr
  obtain ⟨rfl, rfl⟩ := hthr
  exact ⟨rfl, fun y n hy _ => ⟨hothers y n hy, rfl⟩⟩

@[simp] theorem addSize_zero : s.addSize x 0 = s := by
  have hid : (fun m : Fields rank ν => (⟨m.size + 0, m.map⟩ : Fields rank ν)) = id := by
    funext m
    rw [Int.add_zero]
    rfl
  rw [State.addSize, hid, modify_id]

theorem putAll_of_isEmpty (hs : Sound s) {src : Source κ ν} (hsrc : src.IsEmpty s)
    {r : State rank ν × Option Exn} (hr : putAll s x src = some r) : r = (s, none) := by
  cases src with
  | multiMap y =>
    obtain ⟨n, hy, rfl⟩ := map_eq_some_iff.mp hr
    have hes : n.map.entries = [] := hsrc n hy
    have hsize : n.size = 0 := by
      rw [(hs.valid n (mem_of_getElem? hy)).counted, pairs, hes]
      rfl
    simp [hes, hsize, visitEntries, State.size, hy]
  | other es =>
    obtain rfl : es = [] := hsrc
    obtain rfl := Option.some.inj hr
    simp [putEach]

theorem sound_step (s : State rank ν) (o : Op κ ν) (t : State rank ν) (hs : Sound s)
    (ho : Allowed s o) (ht : step s o = some t) : Frames s o ∧ Sound t := by
  have hvalid : ∀ x m, s.maps[x]? = some m → Valid s.lists m := fun x m hx =>
    hs.valid m (mem_of_getElem? hx)
  cases o with
  | new => exact hs.create rfl rfl rfl ht
  | copy x =>
    obtain ⟨r, hr, -⟩ := map_eq_some_iff.mp ht
    obtain ⟨m, hx, rfl⟩ := map_eq_some_iff.mp hr
    exact hs.create (m := copy m) rfl (ho m hx) hr ht
  | put x k v =>
    exact hs.call (f := fun h m => put h m k v)
      (fun m hx => keeps_putLast (hvalid x m hx) (hs.below hx) (ho m hx)) rfl rfl ht
  | putFirst x k v =>
    exact hs.call (f := fun h m => putFirst h m k v)
      (fun m hx => keeps_putFirst (hvalid x m hx) (hs.below hx) (ho m hx)) rfl rfl ht
  | putLast x k v =>
    exact hs.call (f := fun h m => putLast h m k v)
      (fun m hx => keeps_putLast (hvalid x m hx) (hs.below hx) (ho m hx)) rfl rfl ht
  | removeAndPut x k v =>
    refine hs.call (f := fun h m => removeAndPut h m k v)
      (fun m hx => keeps_removeAndPut (hvalid x m hx) (hs.below hx) ho.1 ?_) rfl rfl ht
    intro a ha
    have hnone := ho.2 m hx
    rw [ha] at hnone
    cases hnone
  | remove x k =>
    exact hs.call (f := fun h m => remove h m k)
      (fun m hx => keeps_remove (hvalid x m hx) (hs.below hx) (ho m hx)) rfl rfl ht
  | removeAll x k =>
    exact hs.call (f := fun h m => removeAll h m k)
      (fun m hx => keeps_removeAll (hvalid x m hx) (hs.below hx) (ho m hx)) rfl rfl ht
  | putAll x src =>
    have hnone : ∀ r, perform s (.putAll x src) = some r → r = (s, none) := by
      intro r hr
      obtain ⟨-, -, hr⟩ := bind_eq_some_iff.mp hr
      exact putAll_of_isEmpty hs ho hr
    obtain ⟨r, hr, rfl⟩ := map_eq_some_iff.mp ht
    refine ⟨fun t thr hthr => ?_, hnone r hr ▸ hs⟩
    obtain ⟨rfl, rfl⟩ := Prod.mk.inj (hnone _ hthr)
    exact ⟨rfl, fun y n hy _ => ⟨hy, rfl⟩⟩
  | clear x =>
    exact hs.call (f := fun h _ => clear h) (fun m hx => keeps_clear (hs.below hx)) rfl rfl ht

/-- **Multi-maps in a run of allowed operations** count their pairs, are iterated in order, and are
not changed by an operation on another. -/
theorem iterated_of_allowed (h : Lists ν) {os : List (Op κ ν)}
    (hos : Run.Along step Allowed (⟨h, []⟩ : State rank ν) os) :
    Run.Visits step Iterated (⟨h, []⟩ : State rank ν) os ∧
      Run.Along step Frames (⟨h, []⟩ : State rank ν) os := by
  constructor
  · have hsound : Run.Visits step Sound (⟨h, []⟩ : State rank ν) os :=
      Run.visits_of_along (fun s o t hs ho ht => (sound_step s o t hs ho ht).2) (sound_start h) hos
    exact Run.visits_mono (fun _ => iterated_of_sound) hsound
  · exact Run.along_of_invariant sound_step (sound_start h) hos

instance decidablePlain : (v : Obj ν) → Decidable v.Plain
  | .null | .arrayList _ => .isFalse id
  | .other _ => .isTrue trivial

instance (m : Fields rank ν) (k : κ) : Decidable (m.containsKey k) :=
  inferInstanceAs (Decidable (_ = true))

instance decidableIsEmpty (s : State rank ν) : (t : Source κ ν) → Decidable (t.IsEmpty s)
  | .multiMap _ => inferInstanceAs (Decidable (∀ _ ∈ _, _))
  | .other es => inferInstanceAs (Decidable (es = []))

instance decidableAllowed (s : State rank ν) : (o : Op κ ν) → Decidable (Allowed s o)
  | .new | .clear _ => .isTrue trivial
  | .copy _ => inferInstanceAs (Decidable (∀ _ ∈ _, _))
  | .put _ _ _ | .putFirst _ _ _ | .putLast _ _ _ => inferInstanceAs (Decidable (∀ _ ∈ _, _))
  | .removeAndPut _ _ _ => inferInstanceAs (Decidable (_ ∧ _))
  | .remove _ _ | .removeAll _ _ => inferInstanceAs (Decidable (∀ _ ∈ _, _))
  | .putAll _ t => decidableIsEmpty s t

instance [DecidableEq κ] [DecidableEq ν] (s : State rank ν) : Decidable (Iterated s) :=
  inferInstanceAs (Decidable (∀ _ ∈ _, _))

theorem iterated_of_allowed_headers :
    let s : State (id : ℕ → ℕ) ℕ := ⟨⟨fun _ => [], 0⟩, []⟩
    let os : List (Op ℕ ℕ) := [.new, .put 0 2 (.other 7), .put 0 1 (.other 8),
      .putFirst 0 2 (.other 9), .putLast 0 2 (.other 5), .new, .putAll 0 (.multiMap 1), .copy 1,
      .removeAndPut 2 1 (.other 3), .remove 0 2, .removeAll 0 1, .clear 2]
    Run.Visits step Iterated s os ∧ Run.Along step Frames s os :=
  iterated_of_allowed ⟨fun _ => [], 0⟩ (by decide)

/-- The copy of a multi-map counts no pair. -/
theorem copy_not_counted : ¬ ∀ os : List (Op ℕ ℕ),
    Run.Visits step Iterated (⟨⟨fun _ => [], 0⟩, []⟩ : State (id : ℕ → ℕ) ℕ) os ∧
      Run.Along step Frames (⟨⟨fun _ => [], 0⟩, []⟩ : State (id : ℕ → ℕ) ℕ) os := by
  intro h
  have hcopy := (h [.new, .put 0 0 (.other 7), .copy 0]).1
  revert hcopy
  decide

end Runs

end Ong.Util.MultiMapHeap
