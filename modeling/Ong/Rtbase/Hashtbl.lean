import Ong.Lib.FiniteMap

/-!
# The common hash table

An array of chains of nodes.  The key of a node is a copy, an unsigned integer, or a part of the
data itself.
-/

namespace Ong.Rtbase

/-- `HTBL_KEY_STRING`, or `HTBL_KEY_UINT` with the key that a `NULL` pointer is. -/
inductive KeyType (κ : Type*)
  | string
  | uint (zero : κ)
  deriving DecidableEq

/-- What a table is created for: its hash function, and where the keys are. -/
structure HtblType (κ δ : Type*) where
  hashfunc : κ → Nat
  keyType : KeyType κ
  /-- `DATA_INCLUDE_KEY` -/
  included : Bool := false
  /-- the key at `offset` in the data -/
  keyOf : δ → κ

structure Hnode (κ δ : Type*) where
  key : κ
  data : δ

structure Htbl (κ δ : Type*) where
  size : Nat
  count : UInt32
  entries : List (List (Hnode κ δ))

/-- Whether an insertion gets the memory of its node, and that of the copy of its key. -/
structure Malloc where
  node : Bool := true
  key : Bool := true

section Operations

variable {κ δ : Type*} [DecidableEq κ] (T : HtblType κ δ)

/-- The pointer that a key is passed as; `none` is `NULL`. -/
def HtblType.pointer (k : κ) : Option κ :=
  match T.keyType with
  | .string => some k
  | .uint zero => if k = zero then none else some k

/-- The key that a pointer is; there is none behind a string that is `NULL`. -/
def HtblType.value (key : Option κ) : Option κ :=
  match key, T.keyType with
  | some k, _ => some k
  | none, .string => none
  | none, .uint zero => some zero

/-- The key of an insertion. -/
def HtblType.key (key : Option κ) (data : δ) : Option κ :=
  if T.included then some (T.keyOf data) else T.value key

namespace Htbl

/-- `htbl_create`, with the key functions of `T`. -/
def create (κ δ : Type*) (size : Nat) : Htbl κ δ := ⟨size, 0, List.replicate size []⟩

variable (t : Htbl κ δ)

/-- `hash`, the index of the chain of a key. -/
def index (k : κ) : Nat := T.hashfunc k % t.size

/-- The value of an `unsigned int` that is returned as an `int`. -/
def signed (count : UInt32) : Int := (count.toNat : Int).bmod (2 ^ 32)

/-- `htbl_insert`, once it knows its key. -/
def insertKey (k : κ) (data : δ) (mem : Malloc) : Option (Int × Htbl κ δ) :=
  match t.entries[t.index T k]? with
  | none => none
  | some chain =>
    -- a key that is there already is not replaced
    if chain.any fun node => node.key = k then some (-1, t)
    else if mem.node = false then some (-2, t)
    else if T.keyType = .string ∧ T.included = false ∧ mem.key = false then some (-3, t)
    else
      some (signed (t.count + 1),
        { t with
          entries := t.entries.set (t.index T k) (⟨k, data⟩ :: chain)
          count := t.count + 1 })

/-- `htbl_insert` -/
def insert (key : Option κ) (data : δ) (mem : Malloc) : Option (Int × Htbl κ δ) :=
  if T.included = true ∧ key ≠ none then some (-10, t)
  else
    match T.key key data with
    | none => none
    | some k => t.insertKey T k data mem

/-- `htbl_remove` -/
def remove (k : κ) : Option (Int × Htbl κ δ) :=
  match t.entries[t.index T k]? with
  | none => none
  | some chain =>
    if chain.any fun node => node.key = k then
      some (signed (t.count - 1),
        { t with
          entries := t.entries.set (t.index T k) (chain.eraseP fun node => node.key = k)
          count := t.count - 1 })
    else some (-1, t)

/-- `htbl_get`; in its result, `none` is `NULL`. -/
def get (k : κ) : Option (Option δ) :=
  (t.entries[t.index T k]?).map fun chain =>
    (chain.find? fun node => node.key = k).map Hnode.data

/-- The nodes that `htbl_walk` calls its function on, when it goes on to the end. -/
def walk : Option (List (Hnode κ δ)) :=
  if t.size ≤ t.entries.length then some (t.entries.take t.size).flatten else none

/-! ## Resizing -/

/-- One node goes from the old table to the new one, whatever the insertion returns. -/
def move (mem : κ → Malloc) (tables : Htbl κ δ × Htbl κ δ) (node : Hnode κ δ) :
    Option (Htbl κ δ × Htbl κ δ) := do
  let (_, newtbl) ← tables.1.insert T (T.pointer node.key) node.data (mem node.key)
  let (_, htbl) ← tables.2.remove T node.key
  return (newtbl, htbl)

/-- The nodes of one chain of the old table. -/
def moveChain (mem : κ → Malloc) (tables : Htbl κ δ × Htbl κ δ) (n : Nat) :
    Option (Htbl κ δ × Htbl κ δ) := do
  let chain ← tables.2.entries[n]?
  chain.foldlM (move T mem) tables

/-- `htbl_resize` -/
def resize (size : Nat) (calloc : Bool) (mem : κ → Malloc) : Option (Int × Htbl κ δ) :=
  if calloc = false then some (-1, t)
  else do
    -- the copy of the header also gives the new table the size and the count of the old one
    let newtbl : Htbl κ δ := { t with entries := List.replicate size [] }
    let (newtbl, htbl) ← (List.range t.size).foldlM (moveChain T mem) (newtbl, t)
    let htbl := { htbl with size := newtbl.size, entries := newtbl.entries }
    return (signed htbl.count, htbl)

end Htbl

/-! ## Runs -/

/-- A table, `none` after an access out of its array, and the keys that are live with their data:
those of the successful insertions that no removal followed. -/
structure HtblRun (κ δ : Type*) where
  table : Option (Htbl κ δ)
  live : AList fun _ : κ => δ

inductive HtblEvent (κ δ : Type*)
  | insert (key : Option κ) (data : δ) (mem : Malloc)
  | remove (k : κ)
  | get (k : κ)
  | resize (size : Nat) (calloc : Bool) (mem : κ → Malloc)

/-- The live keys after an operation that returned `ret`. -/
def liveAfter (live : AList fun _ : κ => δ) (ret : Int) : HtblEvent κ δ → AList fun _ : κ => δ
  | .insert key data _ =>
    match T.key key data with
    | some k => if 0 ≤ ret then live.insert k data else live
    | none => live
  | .remove k => live.erase k
  | .get _ => live
  | .resize _ _ _ => live

/-- The operation of an event, and what it returns. -/
def HtblEvent.run (t : Htbl κ δ) : HtblEvent κ δ → Option (Int × Htbl κ δ)
  | .insert key data mem => t.insert T (key.bind T.pointer) data mem
  | .remove k => t.remove T k
  | .get k => (t.get T k).map fun _ => (0, t)
  | .resize size calloc mem => t.resize T size calloc mem

/-- The events that a caller may give: a string is not `NULL`, unless it is in the data, and a size
is positive. -/
def HtblEvent.valid : HtblEvent κ δ → Bool
  | .insert key data _ => (T.key key data).isSome
  | .remove _ => true
  | .get _ => true
  | .resize size _ _ => 0 < size

/-- One event. -/
def htblStep (s : HtblRun κ δ) (e : HtblEvent κ δ) : Option (HtblRun κ δ) :=
  if e.valid T then
    match s.table with
    | none => none
    | some t =>
      match e.run T t with
      | none => some { s with table := none }
      | some (ret, t) => some ⟨some t, liveAfter T s.live ret e⟩
  else none

end Operations

end Ong.Rtbase
