import Ong.Lib.Run
import Ong.Rtbase.Hashtbl

/-!
# The hash table is a finite map

The nodes of the chains are the live keys with their data, each in the chain of its hash.  Resizing
keeps this of an empty table only, and only if its array does not get smaller: the new size is
overwritten with the old one, and every node that is moved is taken off the count.

## Main results

* `refines_iff`: in a run, the table is the map of the live keys exactly when its events meet the
  condition
-/

namespace Ong.Rtbase

open List

theorem flatten_perm_set {α : Type*} {chains : List (List α)} {i : Nat} {chain chain' : List α}
    {a : α} (h : chains[i]? = some chain) (hchain : chain.Perm (a :: chain')) :
    chains.flatten.Perm (a :: (chains.set i chain').flatten) := by
  induction chains generalizing i with
  | nil => cases h
  | cons c chains ih =>
    cases i with
    | zero =>
      cases h
      exact hchain.append_right _
    | succ i =>
      exact ((ih h).append_left c).trans perm_middle

variable {κ δ : Type*} {T : HtblType κ δ} {count : UInt32}

/-- A node, as the entry of a map. -/
def Hnode.entry (node : Hnode κ δ) : Σ _ : κ, δ := ⟨node.key, node.data⟩

namespace Htbl

variable (T) in
/-- What an outside view of a table says of the live keys: a lookup finds the data of its key, a
walk visits every key once with its data, the count is their number, and the chain of every key is
in the array. -/
structure Refines [DecidableEq κ] (t : Htbl κ δ) (live : AList fun _ : κ => δ) : Prop where
  get : ∀ k, t.get T k = some (live.lookup k)
  walk : ∃ nodes, t.walk = some nodes ∧ (nodes.map Hnode.entry).Perm live.entries
  count : t.count.toNat = live.entries.length
  index : ∀ k, t.index T k < t.entries.length

variable (T) in
/-- Every node is in the chain of its hash, no key is there twice, and the count is right. -/
structure Chained (t : Htbl κ δ) : Prop where
  size_pos : 0 < t.size
  size_le : t.size ≤ t.entries.length
  placed : ∀ i chain, t.entries[i]? = some chain → ∀ node ∈ chain, t.index T node.key = i
  nodup : (t.entries.flatten.map Hnode.key).Nodup
  count : t.count.toNat = t.entries.flatten.length

variable (T) in
/-- The invariant: the nodes are the live keys. -/
structure Inv (t : Htbl κ δ) (live : AList fun _ : κ => δ) : Prop extends Chained T t where
  nodes : (t.entries.flatten.map Hnode.entry).Perm live.entries
  bound : live.entries.length < 2 ^ 31

variable {node : Hnode κ δ} {chain : List (Hnode κ δ)}

section Chained

variable {t t' : Htbl κ δ} {k : κ} {i : Nat}

theorem Chained.index_lt (h : t.Chained T) (k : κ) : t.index T k < t.entries.length :=
  (Nat.mod_lt _ h.size_pos).trans_le h.size_le

theorem Chained.exists_chain (h : t.Chained T) (k : κ) : ∃ chain, t.entries[t.index T k]? = some chain :=
  ⟨_, getElem?_eq_getElem (h.index_lt k)⟩

theorem Chained.mem_chain (h : t.Chained T) (hchain : t.entries[t.index T k]? = some chain)
    (hkey : node.key = k) : node ∈ chain ↔ node ∈ t.entries.flatten := by
  constructor
  · exact fun hmem => mem_flatten.mpr ⟨chain, mem_of_getElem? hchain, hmem⟩
  · intro hmem
    obtain ⟨chain', hchain', hmem⟩ := mem_flatten.mp hmem
    obtain ⟨i, hi⟩ := getElem?_of_mem hchain'
    have hindex := h.placed i chain' hi node hmem
    rw [hkey] at hindex
    rw [hindex, hi] at hchain
    cases hchain
    exact hmem

theorem Chained.of_perm (h : t.Chained T) (hchain : t.entries[i]? = some chain)
    {chain' : List (Hnode κ δ)} (hperm : chain.Perm (node :: chain')) :
    Chained T { t with entries := t.entries.set i chain', count := t.count - 1 } := by
  have hflatten := flatten_perm_set hchain hperm
  constructor
  case size_pos => exact h.size_pos
  case size_le =>
    rw [length_set]
    exact h.size_le
  case placed =>
    intro j chain₂ hj node₂ hmem
    rw [getElem?_set] at hj
    split at hj
    · next heq =>
      split at hj
      · cases hj
        rw [← heq]
        exact h.placed i chain hchain node₂ (hperm.mem_iff.mpr (mem_cons_of_mem _ hmem))
      · cases hj
    · exact h.placed j chain₂ hj node₂ hmem
  case nodup =>
    have hnodup := ((hflatten.map Hnode.key).nodup_iff).mp h.nodup
    exact (nodup_cons.mp hnodup).2
  case count =>
    have hlength := hflatten.length_eq
    rw [length_cons, ← h.count] at hlength
    have hle : (1 : UInt32) ≤ t.count := by
      change 1 ≤ t.count.toNat
      omega
    rw [UInt32.toNat_sub_of_le _ _ hle, hlength]
    rfl

end Chained

variable [DecidableEq κ] {t t' : Htbl κ δ} {live : AList fun _ : κ => δ} {k : κ}

/-! ## Lookups -/

theorem Inv.mem_flatten (h : t.Inv T live) :
    node ∈ t.entries.flatten ↔ live.lookup node.key = some node.data := by
  rw [← Option.mem_def, AList.mem_lookup_iff, ← h.nodes.mem_iff, mem_map]
  constructor
  · exact fun hmem => ⟨node, hmem, rfl⟩
  · rintro ⟨⟨key, data⟩, hmem, heq⟩
    cases heq
    exact hmem

theorem Inv.find_eq (h : t.Inv T live) {chain : List (Hnode κ δ)}
    (hchain : t.entries[t.index T k]? = some chain) :
    (chain.find? fun node => node.key = k).map Hnode.data = live.lookup k := by
  cases hfind : chain.find? fun node => node.key = k with
  | none =>
    cases hlookup : live.lookup k with
    | none => rfl
    | some data =>
      have hmem : (⟨k, data⟩ : Hnode κ δ) ∈ t.entries.flatten := h.mem_flatten.mpr hlookup
      have hnone := find?_eq_none.mp hfind _ ((h.mem_chain hchain rfl).mpr hmem)
      exact absurd (decide_eq_true rfl) hnone
  | some node =>
    have hkey : node.key = k :=
      of_decide_eq_true (find?_some (p := fun node : Hnode κ δ => node.key = k) hfind)
    have hmem := (h.mem_chain hchain hkey).mp (mem_of_find?_eq_some hfind)
    rw [← hkey, h.mem_flatten.mp hmem, Option.map_some]

theorem Inv.any_eq (h : t.Inv T live) {chain : List (Hnode κ δ)}
    (hchain : t.entries[t.index T k]? = some chain) :
    (chain.any fun node => node.key = k) = true ↔ k ∈ live := by
  have hfind := h.find_eq hchain
  rw [← AList.lookup_isSome, ← hfind, Option.isSome_map, find?_isSome, any_eq_true]

/-- **The outside view** of a table that keeps the invariant. -/
theorem Inv.refines (h : t.Inv T live) : t.Refines T live := by
  refine ⟨fun k => ?_, ⟨(t.entries.take t.size).flatten, ?_, ?_⟩, ?_, h.index_lt⟩
  · obtain ⟨chain, hchain⟩ := h.exists_chain k
    rw [get, hchain, Option.map_some, h.find_eq hchain]
  · exact if_pos h.size_le
  · have hrest : (t.entries.drop t.size).flatten = [] := by
      rw [flatten_eq_nil_iff]
      intro chain hmem
      obtain ⟨i, hi⟩ := getElem?_of_mem hmem
      rw [getElem?_drop] at hi
      refine eq_nil_iff_forall_not_mem.mpr fun node hnode => ?_
      have hindex := h.placed _ chain hi node hnode
      have hlt := Nat.mod_lt (T.hashfunc node.key) h.size_pos
      unfold index at hindex
      omega
    have hsplit : t.entries.flatten = (t.entries.take t.size).flatten := by
      rw [← take_append_drop t.size t.entries, flatten_append, hrest, append_nil,
        take_append_drop]
    rw [← hsplit]
    exact h.nodes
  · rw [h.count, ← h.nodes.length_eq, length_map]

/-! ## Removals -/

theorem remove_of_mem {chain : List (Hnode κ δ)}
    (hchain : t.entries[t.index T k]? = some chain)
    (hany : (chain.any fun node => node.key = k) = true) :
    ∃ data chain', chain.Perm (⟨k, data⟩ :: chain') ∧
      chain' = (chain.eraseP fun node => node.key = k) ∧
      t.remove T k = some (signed (t.count - 1),
        { t with entries := t.entries.set (t.index T k) chain', count := t.count - 1 }) := by
  obtain ⟨node, hmem, hkey⟩ := any_eq_true.mp hany
  obtain ⟨⟨key, data⟩, l₁, l₂, -, hnode, happend, herase⟩ :=
    exists_of_eraseP (p := fun node : Hnode κ δ => node.key = k) hmem hkey
  cases of_decide_eq_true hnode
  refine ⟨data, _, ?_, rfl, ?_⟩
  · rw [herase, happend]
    exact perm_middle
  · unfold remove
    rw [hchain]
    exact if_pos hany

/-- **A removal** takes the key off the live ones. -/
theorem Inv.remove (h : t.Inv T live) (k : κ) :
    ∃ ret t', t.remove T k = some (ret, t') ∧ t'.Inv T (live.erase k) := by
  obtain ⟨chain, hchain⟩ := h.exists_chain k
  by_cases hany : (chain.any fun node => node.key = k) = true
  · obtain ⟨data, chain', hperm, -, hremove⟩ := remove_of_mem hchain hany
    refine ⟨_, _, hremove, { h.of_perm hchain hperm with nodes := ?_, bound := ?_ }⟩
    · have hflatten := (flatten_perm_set hchain hperm).map Hnode.entry
      rw [map_cons] at hflatten
      have hmem : (⟨k, data⟩ : Hnode κ δ) ∈ t.entries.flatten :=
        (h.mem_chain hchain rfl).mp (hperm.mem_iff.mpr mem_cons_self)
      have hlive := FiniteMap.entries_perm_of_lookup (h.mem_flatten.mp hmem)
      exact (hflatten.symm.trans (h.nodes.trans hlive)).cons_inv
    · refine Nat.lt_of_le_of_lt ?_ h.bound
      exact (kerase_sublist k live.entries).length_le
  · have hlive : k ∉ live := fun hk => hany ((h.any_eq hchain).mpr hk)
    have herase : live.erase k = live := AList.ext (kerase_of_notMem_keys hlive)
    refine ⟨-1, t, ?_, ?_⟩
    · unfold Htbl.remove
      rw [hchain]
      exact if_neg hany
    · rw [herase]
      exact h

section Insertions

variable {key : Option κ} {data : δ} {mem : Malloc}

theorem value_bind_pointer (T : HtblType κ δ) (key : Option κ) :
    T.value (key.bind T.pointer) = T.value key := by
  unfold HtblType.value HtblType.pointer
  cases key with
  | none => rfl
  | some k =>
    cases T.keyType with
    | string => rfl
    | uint zero =>
      rw [Option.bind_some]
      dsimp only
      by_cases hk : k = zero
      · rw [if_pos hk, hk]
      · rw [if_neg hk]

theorem key_bind_pointer (T : HtblType κ δ) (key : Option κ) (data : δ) :
    T.key (key.bind T.pointer) data = T.key key data := by
  unfold HtblType.key
  rw [value_bind_pointer]

variable (T) in
/-- The insertions that are not refused: the key is given where it has to be, it is not live, and
there is memory. -/
def Accepted (live : AList fun _ : κ => δ) (key : Option κ) (data : δ) (mem : Malloc) : Prop :=
  (T.included = true → key.bind T.pointer = none) ∧ (∀ k ∈ T.key key data, k ∉ live) ∧
    mem.node = true ∧ (T.keyType = .string → T.included = false → mem.key = true)

theorem insert_shape {ret : Int} (h : t.insert T key data mem = some (ret, t')) :
    t'.size = t.size ∧ t'.entries.length = t.entries.length := by
  unfold insert insertKey at h
  split at h
  · cases h
    exact ⟨rfl, rfl⟩
  · split at h
    · cases h
    · split at h
      · cases h
      · split at h
        · cases h
          exact ⟨rfl, rfl⟩
        · split at h
          · cases h
            exact ⟨rfl, rfl⟩
          · split at h
            · cases h
              exact ⟨rfl, rfl⟩
            · obtain ⟨-, rfl⟩ := Prod.mk.inj (Option.some.inj h)
              exact ⟨rfl, length_set⟩

/-- **An insertion** is refused and changes nothing, or it is accepted and puts a node first in its
chain. -/
theorem Inv.insert_cases (h : t.Inv T live) (hkey : T.key key data = some k) :
    (¬ Accepted T live key data mem ∧
      ∃ ret < 0, t.insert T (key.bind T.pointer) data mem = some (ret, t)) ∨
    (Accepted T live key data mem ∧ k ∉ live ∧
      ∃ chain, t.entries[t.index T k]? = some chain ∧
        t.insert T (key.bind T.pointer) data mem = some (signed (t.count + 1),
          { t with
            entries := t.entries.set (t.index T k) (⟨k, data⟩ :: chain)
            count := t.count + 1 })) := by
  obtain ⟨chain, hchain⟩ := h.exists_chain k
  unfold insert
  rw [key_bind_pointer, hkey]
  dsimp only
  unfold insertKey
  rw [hchain]
  dsimp only
  by_cases hgiven : T.included = true ∧ key.bind T.pointer ≠ none
  · rw [if_pos hgiven]
    exact .inl ⟨fun haccepted => hgiven.2 (haccepted.1 hgiven.1), -10, by decide, rfl⟩
  rw [if_neg hgiven]
  by_cases hany : (chain.any fun node => node.key = k) = true
  · rw [if_pos hany]
    exact .inl ⟨fun haccepted => haccepted.2.1 k hkey ((h.any_eq hchain).mp hany), -1, by decide,
      rfl⟩
  rw [if_neg hany]
  by_cases hnode : mem.node = false
  · rw [if_pos hnode]
    refine .inl ⟨fun haccepted => ?_, -2, by decide, rfl⟩
    rw [haccepted.2.2.1] at hnode
    cases hnode
  rw [if_neg hnode]
  by_cases hcopy : T.keyType = .string ∧ T.included = false ∧ mem.key = false
  · rw [if_pos hcopy]
    refine .inl ⟨fun haccepted => ?_, -3, by decide, rfl⟩
    have hmem := haccepted.2.2.2 hcopy.1 hcopy.2.1
    rw [hcopy.2.2] at hmem
    cases hmem
  rw [if_neg hcopy]
  have hlive : k ∉ live := fun hk => hany ((h.any_eq hchain).mpr hk)
  refine .inr ⟨⟨fun hincluded => ?_, fun k' hk' => ?_, ?_, fun hstring hincluded => ?_⟩, hlive,
    chain, rfl, rfl⟩
  · exact not_not.mp fun hne => hgiven ⟨hincluded, hne⟩
  · rw [hkey, Option.mem_some_iff] at hk'
    rw [← hk']
    exact hlive
  · exact Bool.eq_true_of_not_eq_false hnode
  · exact Bool.eq_true_of_not_eq_false fun hmem => hcopy ⟨hstring, hincluded, hmem⟩

theorem Inv.inserted (h : t.Inv T live) (hlive : k ∉ live) {chain : List (Hnode κ δ)}
    (hchain : t.entries[t.index T k]? = some chain) (hbound : live.entries.length + 1 < 2 ^ 31)
    (data : δ) :
    Inv T { t with
      entries := t.entries.set (t.index T k) (⟨k, data⟩ :: chain)
      count := t.count + 1 } (live.insert k data) := by
  have hself : (t.entries.set (t.index T k) (⟨k, data⟩ :: chain))[t.index T k]? =
      some (⟨k, data⟩ :: chain) := by
    rw [getElem?_set_self (h.index_lt k)]
  have hflatten := flatten_perm_set hself (Perm.refl _)
  have hset : t.entries.set (t.index T k) chain = t.entries := by
    rw [getElem?_eq_getElem (h.index_lt k)] at hchain
    rw [← Option.some.inj hchain, set_getElem_self]
  rw [set_set, hset] at hflatten
  have hlength := hflatten.length_eq
  have hnodes := h.nodes.length_eq
  have hcount := h.count
  rw [length_cons] at hlength
  rw [length_map] at hnodes
  have hentries := AList.entries_insert_of_notMem (b := data) hlive
  constructor
  case toChained =>
    constructor
    case size_pos => exact h.size_pos
    case size_le =>
      rw [length_set]
      exact h.size_le
    case placed =>
      intro j chain₂ hj node₂ hmem
      rw [getElem?_set] at hj
      split at hj
      · next heq =>
        split at hj
        · cases hj
          rcases mem_cons.mp hmem with rfl | hmem
          · exact heq
          · rw [← heq]
            exact h.placed _ chain hchain node₂ hmem
        · cases hj
      · exact h.placed j chain₂ hj node₂ hmem
    case nodup =>
      rw [(hflatten.map Hnode.key).nodup_iff, map_cons, nodup_cons]
      refine ⟨fun hmem => hlive ?_, h.nodup⟩
      obtain ⟨node, hmem, hkey⟩ := mem_map.mp hmem
      change node.key = k at hkey
      rw [← AList.lookup_isSome, ← hkey, h.mem_flatten.mp hmem]
      rfl
    case count =>
      rw [UInt32.toNat_add, hlength, hcount]
      have hone : (1 : UInt32).toNat = 1 := rfl
      omega
  case nodes =>
    rw [hentries]
    exact (hflatten.map Hnode.entry).trans (h.nodes.cons _)
  case bound =>
    rw [hentries]
    exact hbound

end Insertions

section Resize

variable {tables tables' : Htbl κ δ × Htbl κ δ} {mem : κ → Malloc} {size : Nat} {n : Nat}

variable (T) in
/-- What the loops of a resizing keep. -/
structure Moved (tables tables' : Htbl κ δ × Htbl κ δ) : Prop where
  chained : tables'.2.Chained T
  size : tables'.2.size = tables.2.size
  newSize : tables'.1.size = tables.1.size
  newLength : tables'.1.entries.length = tables.1.entries.length

omit [DecidableEq κ] in
theorem Moved.trans {tables'' : Htbl κ δ × Htbl κ δ} (h : Moved T tables tables')
    (h' : Moved T tables' tables'') : Moved T tables tables'' :=
  ⟨h'.chained, h'.size.trans h.size, h'.newSize.trans h.newSize, h'.newLength.trans h.newLength⟩

theorem Chained.move (h : tables.2.Chained T) (hchain : tables.2.entries[n]? = some (node :: chain))
    (hmove : Htbl.move T mem tables node = some tables') :
    Moved T tables tables' ∧ tables'.2.entries = tables.2.entries.set n chain := by
  obtain ⟨⟨_, newtbl⟩, hinsert, hmove⟩ := Option.bind_eq_some_iff.mp hmove
  obtain ⟨⟨_, htbl⟩, hremove, hreturn⟩ := Option.bind_eq_some_iff.mp hmove
  cases hreturn
  have hindex := h.placed n _ hchain node mem_cons_self
  have hany : ((node :: chain).any fun node' => node'.key = node.key) = true :=
    any_eq_true.mpr ⟨node, mem_cons_self, decide_eq_true rfl⟩
  rw [← hindex] at hchain
  obtain ⟨data, chain', hperm, hchain', hresult⟩ := remove_of_mem hchain hany
  have hrest : chain' = chain := by
    rw [hchain']
    exact eraseP_cons_of_pos (decide_eq_true rfl)
  rw [hresult] at hremove
  obtain ⟨-, rfl⟩ := Prod.mk.inj (Option.some.inj hremove)
  obtain ⟨hsize, hlength⟩ := insert_shape hinsert
  refine ⟨⟨h.of_perm hchain hperm, rfl, hsize, hlength⟩, ?_⟩
  rw [hindex, hrest]

theorem Chained.moveNodes (h : tables.2.Chained T) (hchain : tables.2.entries[n]? = some chain)
    (hmove : chain.foldlM (Htbl.move T mem) tables = some tables') :
    Moved T tables tables' ∧ tables'.2.entries = tables.2.entries.set n [] := by
  have hn : n < tables.2.entries.length := (List.getElem?_eq_some_iff.mp hchain).1
  induction chain generalizing tables with
  | nil =>
    cases hmove
    refine ⟨⟨h, rfl, rfl, rfl⟩, ?_⟩
    rw [getElem?_eq_getElem hn] at hchain
    rw [← Option.some.inj hchain, set_getElem_self]
  | cons node chain ih =>
    obtain ⟨tables₁, hfirst, hrest⟩ := Option.bind_eq_some_iff.mp hmove
    obtain ⟨hmoved, hentries⟩ := h.move hchain hfirst
    have hchain₁ : tables₁.2.entries[n]? = some chain := by
      rw [hentries, getElem?_set_self hn]
    have hn₁ : n < tables₁.2.entries.length := by
      rw [hentries, length_set]
      exact hn
    obtain ⟨hmoved', hentries'⟩ := ih hmoved.chained hchain₁ hrest hn₁
    refine ⟨hmoved.trans hmoved', ?_⟩
    rw [hentries', hentries, set_set]

theorem Chained.moveChains (h : tables.2.Chained T) {m : Nat}
    (hmove : (range m).foldlM (Htbl.moveChain T mem) tables = some tables') :
    Moved T tables tables' ∧ ∀ i < m, tables'.2.entries[i]? = some [] := by
  induction m generalizing tables' with
  | zero =>
    cases hmove
    exact ⟨⟨h, rfl, rfl, rfl⟩, nofun⟩
  | succ m ih =>
    rw [range_succ, foldlM_append] at hmove
    obtain ⟨tables₁, hfirst, hlast⟩ := Option.bind_eq_some_iff.mp hmove
    obtain ⟨hmoved, hempty⟩ := ih hfirst
    obtain ⟨tables₂, hlast, hnil⟩ := Option.bind_eq_some_iff.mp hlast
    cases hnil
    obtain ⟨chain, hchain, hlast⟩ := Option.bind_eq_some_iff.mp hlast
    obtain ⟨hmoved', hentries⟩ := hmoved.chained.moveNodes hchain hlast
    have hm : m < tables₁.2.entries.length := (List.getElem?_eq_some_iff.mp hchain).1
    refine ⟨hmoved.trans hmoved', fun i hi => ?_⟩
    rw [hentries]
    by_cases him : i = m
    · rw [him, getElem?_set_self hm]
    · rw [getElem?_set_ne (Ne.symm him)]
      exact hempty i (by omega)

/-- **What a resizing leaves**: the size is the old one, the array is the new one, and nothing is
counted. -/
theorem Chained.resize_shape (h : t.Chained T) {ret : Int}
    (hresize : t.resize T size true mem = some (ret, t')) :
    t'.size = t.size ∧ t'.entries.length = size ∧ t'.count.toNat = 0 := by
  unfold resize at hresize
  rw [if_neg (by decide)] at hresize
  obtain ⟨⟨newtbl, htbl⟩, hloop, hreturn⟩ := Option.bind_eq_some_iff.mp hresize
  obtain ⟨-, rfl⟩ := Prod.mk.inj (Option.some.inj hreturn)
  obtain ⟨hmoved, hempty⟩ := Chained.moveChains h hloop
  refine ⟨hmoved.newSize, hmoved.newLength.trans length_replicate, ?_⟩
  have hnil : htbl.entries.flatten = [] := by
    refine eq_nil_iff_forall_not_mem.mpr fun node hmem => ?_
    obtain ⟨chain, hchain⟩ := hmoved.chained.exists_chain node.key
    have hlt : htbl.index T node.key < t.size := by
      have := Nat.mod_lt (T.hashfunc node.key) hmoved.chained.size_pos
      rw [hmoved.size] at this
      unfold index
      rw [hmoved.size]
      exact this
    have hin := (hmoved.chained.mem_chain hchain rfl).mpr hmem
    rw [hempty _ hlt] at hchain
    cases hchain
    cases hin
  have hcount := hmoved.chained.count
  rw [hcount, hnil]
  rfl

theorem resize_of_empty (hsize : t.size ≤ t.entries.length) (hempty : t.entries.flatten = []) :
    t.resize T size true mem =
      some (signed t.count, { t with entries := replicate size [] }) := by
  have hloop : ∀ m ≤ t.size, (range m).foldlM (moveChain T mem)
      (({ t with entries := replicate size [] } : Htbl κ δ), t) =
        some ({ t with entries := replicate size [] }, t) := by
    intro m hm
    induction m with
    | zero => rfl
    | succ m ih =>
      have hlt : m < t.entries.length := by omega
      have hchain : t.entries[m]? = some [] := by
        rw [getElem?_eq_getElem hlt, flatten_eq_nil_iff.mp hempty _
          (getElem_mem hlt)]
      rw [range_succ, foldlM_append, ih (by omega)]
      change (moveChain T mem _ m).bind _ = _
      unfold moveChain
      rw [hchain]
      rfl
  unfold resize
  dsimp only
  rw [hloop _ le_rfl]
  rfl

omit [DecidableEq κ] in
theorem inv_replicate (hpos : 0 < size) (hle : size ≤ n) (hcount : count.toNat = 0)
    (hempty : live.entries = []) : Inv T ⟨size, count, replicate n []⟩ live := by
  have hnone : ((replicate n []).flatten : List (Hnode κ δ)) = [] :=
    flatten_replicate_nil
  constructor
  case toChained =>
    constructor
    case size_pos => exact hpos
    case size_le => exact hle.trans length_replicate.ge
    case placed =>
      intro i chain hi node hmem
      rw [eq_of_mem_replicate (mem_of_getElem? hi)] at hmem
      cases hmem
    case nodup =>
      rw [hnone]
      exact nodup_nil
    case count =>
      rw [hnone]
      exact hcount
  case nodes =>
    rw [hnone, hempty]
    exact Perm.refl _
  case bound =>
    rw [hempty]
    exact Nat.two_pow_pos 31

end Resize

end Htbl

section Runs

variable [DecidableEq κ] {s s' : HtblRun κ δ} {e : HtblEvent κ δ}

open Htbl

variable (T) in
/-- The table of a run is the map of the live keys. -/
def HtblKept (s : HtblRun κ δ) : Prop := ∃ t, s.table = some t ∧ t.Refines T s.live

variable (T) in
/-- The invariant of a run. -/
def HtblRunInv (s : HtblRun κ δ) : Prop := ∃ t, s.table = some t ∧ t.Inv T s.live

variable (T) in
/-- **The condition** on an event: no insertion makes the count an `int` that is negative, and a
table is resized when it is empty, to a size that is not smaller. -/
def HtblCondition (s : HtblRun κ δ) : HtblEvent κ δ → Prop
  | .insert key data mem => Accepted T s.live key data mem → s.live.entries.length + 1 < 2 ^ 31
  | .remove _ => True
  | .get _ => True
  | .resize size calloc _ =>
    calloc = true → s.live.entries = [] ∧ ∀ t ∈ s.table, t.size ≤ size

theorem signed_of_lt (h : count.toNat < 2 ^ 31) : 0 ≤ signed count := by
  unfold signed
  rw [Int.bmod_eq_of_le] <;> omega

theorem signed_of_eq (h : count.toNat = 2 ^ 31) : signed count < 0 := by
  unfold signed
  rw [h]
  decide

theorem htblStep_eq_some (h : htblStep T s e = some s') :
    e.valid T = true ∧ ∃ t, s.table = some t ∧
      ((e.run T t = none ∧ s' = { s with table := none }) ∨
        ∃ ret t', e.run T t = some (ret, t') ∧ s' = ⟨some t', liveAfter T s.live ret e⟩) := by
  unfold htblStep at h
  split at h
  · next hvalid =>
    split at h
    · cases h
    · next t ht =>
      refine ⟨hvalid, t, ht, ?_⟩
      split at h
      · next hrun =>
        cases h
        exact .inl ⟨hrun, rfl⟩
      · next ret t' hrun =>
        cases h
        exact .inr ⟨ret, t', hrun, rfl⟩
  · cases h

theorem htblStep_inv (h : HtblRunInv T s) (hC : HtblCondition T s e)
    (hs : htblStep T s e = some s') : HtblRunInv T s' := by
  obtain ⟨t, ht, hinv⟩ := h
  obtain ⟨hvalid, t₀, ht₀, hrun⟩ := htblStep_eq_some hs
  rw [ht] at ht₀
  cases ht₀
  suffices hresult : ∃ ret t', e.run T t = some (ret, t') ∧ t'.Inv T (liveAfter T s.live ret e) by
    obtain ⟨ret, t', hret, hinv'⟩ := hresult
    rcases hrun with ⟨hnone, -⟩ | ⟨ret₁, t₁, hret₁, rfl⟩
    · rw [hnone] at hret
      cases hret
    · rw [hret₁] at hret
      cases hret
      exact ⟨_, rfl, hinv'⟩
  cases e with
  | insert key data mem =>
    obtain ⟨k, hk⟩ := Option.isSome_iff_exists.mp hvalid
    unfold HtblEvent.run liveAfter
    dsimp only
    rw [hk]
    dsimp only
    rcases hinv.insert_cases hk with ⟨-, ret, hret, hinsert⟩ |
      ⟨haccepted, hlive, chain, hchain, hinsert⟩
    · refine ⟨ret, t, hinsert, ?_⟩
      rw [if_neg (by omega)]
      exact hinv
    · have hbound := hC haccepted
      have hinserted := hinv.inserted hlive hchain hbound data
      refine ⟨_, _, hinsert, ?_⟩
      have hcount := hinserted.count
      rw [if_pos (signed_of_lt ?_)]
      · exact hinserted
      · rw [hcount, ← length_map Hnode.entry, hinserted.nodes.length_eq]
        exact hinserted.bound
  | remove k => exact hinv.remove k
  | get k =>
    refine ⟨0, t, ?_, hinv⟩
    change (t.get T k).map _ = _
    rw [hinv.refines.get k]
    rfl
  | resize size calloc mem =>
    by_cases hcalloc : calloc = true
    · obtain ⟨hempty, hsize⟩ := hC hcalloc
      have hle := hsize t ht
      have hnodes := hinv.nodes
      rw [hempty, perm_nil, map_eq_nil_iff] at hnodes
      subst hcalloc
      have hcount := hinv.count
      rw [hnodes] at hcount
      exact ⟨_, _, resize_of_empty hinv.size_le hnodes,
        inv_replicate hinv.size_pos hle hcount hempty⟩
    · refine ⟨-1, t, ?_, hinv⟩
      unfold HtblEvent.run resize
      dsimp only
      rw [if_pos (Bool.eq_false_of_not_eq_true hcalloc)]

theorem htblCondition_of_kept (h : HtblRunInv T s) (hs : htblStep T s e = some s')
    (hkept : HtblKept T s') : HtblCondition T s e := by
  obtain ⟨t, ht, hinv⟩ := h
  obtain ⟨hvalid, t₀, ht₀, hrun⟩ := htblStep_eq_some hs
  rw [ht] at ht₀
  cases ht₀
  obtain ⟨t', ht', hrefines⟩ := hkept
  rcases hrun with ⟨-, rfl⟩ | ⟨ret, t₁, hrun, rfl⟩
  · cases ht'
  cases ht'
  cases e with
  | insert key data mem =>
    intro haccepted
    obtain ⟨k, hk⟩ := Option.isSome_iff_exists.mp hvalid
    rcases hinv.insert_cases hk with ⟨hrefused, -⟩ | ⟨-, hlive, chain, hchain, hinsert⟩
    · exact absurd haccepted hrefused
    -- at the full count the result would be negative, as if nothing was inserted
    by_contra hbound
    have hfull : s.live.entries.length + 1 = 2 ^ 31 := by
      have := hinv.bound
      omega
    have hcount := hinv.refines.count
    have hone : (1 : UInt32).toNat = 1 := rfl
    have hnext : (t.count + 1).toNat = 2 ^ 31 := by
      rw [UInt32.toNat_add, hcount, hone]
      omega
    change t.insert T (key.bind T.pointer) data mem = _ at hrun
    rw [hinsert] at hrun
    obtain ⟨rfl, rfl⟩ := Prod.mk.inj (Option.some.inj hrun)
    have hafter := hrefines.count
    unfold liveAfter at hafter
    dsimp only at hafter
    rw [hk] at hafter
    dsimp only at hafter
    rw [if_neg (by have := signed_of_eq hnext; omega), hnext] at hafter
    omega
  | remove k | get k => trivial
  | resize size calloc mem =>
    rintro rfl
    obtain ⟨hsize, hlength, hcount⟩ := hinv.resize_shape hrun
    have hlive := hrefines.count
    rw [hcount] at hlive
    refine ⟨eq_nil_of_length_eq_zero hlive.symm, fun t₂ ht₂ => ?_⟩
    rw [Option.mem_def, ht] at ht₂
    cases ht₂
    obtain ⟨nodes, hwalk, -⟩ := hrefines.walk
    unfold walk at hwalk
    split at hwalk
    · next hle =>
      rw [hsize, hlength] at hle
      exact hle
    · cases hwalk

omit [DecidableEq κ] in
theorem htblRunInv_create (T : HtblType κ δ) {size : Nat} (hsize : 0 < size) :
    HtblRunInv T ⟨some (create κ δ size), ∅⟩ :=
  ⟨_, rfl, inv_replicate hsize le_rfl rfl rfl⟩

/-- **The hash table is a finite map** all along a run, from its creation, exactly when the events
of the run meet the condition. -/
theorem refines_iff (T : HtblType κ δ) {size : Nat} (hsize : 0 < size)
    (events : List (HtblEvent κ δ)) :
    Run.Visits (htblStep T) (HtblKept T) ⟨some (create κ δ size), ∅⟩ events ↔
      Run.Along (htblStep T) (HtblCondition T) ⟨some (create κ δ size), ∅⟩ events :=
  Run.visits_iff_along (I := HtblRunInv T) (fun _ ⟨t, ht, hinv⟩ => ⟨t, ht, hinv.refines⟩)
    (fun _ _ _ h hC hs => htblStep_inv h hC hs)
    (fun _ _ _ h hs hkept => htblCondition_of_kept h hs hkept) (htblRunInv_create T hsize)

end Runs

/-- Keys of type `unsigned int`, in the data or not. -/
def uintType (included : Bool) : HtblType Nat Nat := ⟨id, .uint 0, included, id⟩

/-- A table that is resized before it is used, and keys of the same chain. -/
theorem refines_insert_remove :
    Run.Visits (htblStep (uintType false)) (HtblKept (uintType false))
      ⟨some (Htbl.create Nat Nat 2), ∅⟩
      [.resize 4 true fun _ => {}, .insert (some 1) 10 {}, .insert (some 3) 30 {}, .remove 1,
        .get 3] := by
  refine (refines_iff (uintType false) (by decide) _).mpr fun s₁ h₁ => ⟨fun _ => ⟨rfl, ?_⟩,
    fun s₂ h₂ => ⟨fun _ => ?_, fun s₃ h₃ => ⟨fun _ => ?_, fun s₄ h₄ => ⟨trivial, fun s₅ h₅ =>
      ⟨trivial, trivial⟩⟩⟩⟩⟩
  · rintro t ⟨⟩
    decide
  · cases h₁
    decide
  · cases h₁
    cases h₂
    decide

/-- A table that grows with a key has lost its count, one that shrinks finds keys out of its array,
and one with the keys in the data has lost the key. -/
theorem refines_broken :
    ¬ Run.Visits (htblStep (uintType false)) (HtblKept (uintType false))
        ⟨some (Htbl.create Nat Nat 1), ∅⟩ [.insert (some 1) 10 {}, .resize 2 true fun _ => {}] ∧
      ¬ Run.Visits (htblStep (uintType false)) (HtblKept (uintType false))
        ⟨some (Htbl.create Nat Nat 2), ∅⟩ [.resize 1 true fun _ => {}, .insert (some 1) 10 {}] ∧
      ¬ Run.Visits (htblStep (uintType true)) (HtblKept (uintType true))
        ⟨some (Htbl.create Nat Nat 1), ∅⟩ [.insert none 10 {}, .resize 1 true fun _ => {}] := by
  refine ⟨fun h => ?_, fun h => ?_, fun h => ?_⟩
  · obtain ⟨t, ht, hrefines⟩ := Run.visits_exec h rfl
    cases ht
    exact absurd hrefines.count (by decide)
  · obtain ⟨t, ht, hrefines⟩ := Run.visits_exec h rfl
    cases ht
  · obtain ⟨t, ht, hrefines⟩ := Run.visits_exec h rfl
    cases ht
    exact absurd (hrefines.get 10) (by decide)

end Ong.Rtbase
