import Mathlib
import Ong.Lib.BinarySearch
import Ong.Lib.Printf
import Ong.Lib.Run
import Ong.Lib.Window

/-!
# The shared dictionary

A file of strings is read into one piece of memory, one string behind the other, and a sorted table
of offsets is made of it.  A string is looked for by dichotomy; if it is not there, an entry that it
begins with is given instead, if the search ends at one, and a message is made where one is asked for.

## Main results

* `WellLoaded.lookupExact`: the lookup in a dictionary that has been loaded as it should be
* `wellLoaded_of_load`: what loading a file gives
* `lookups_exact`: the lookups of a run
-/

namespace Ong.Xo

open BinarySearch List Window Prod

/-! ## The variables -/

def grainDico : Nat := 1024

/-- The static variables.  The value of an entry of the table is the address of its offset. -/
structure SharedDico where
  xoDico : Option (Nat → UInt8)
  xoDicoCount : Nat
  xoOffDico : Nat
  xoAllocDico : Nat
  tabDico : List Nat

namespace SharedDico

def initial : SharedDico := ⟨none, 0, 0, 0, []⟩

end SharedDico

/-- The string at an address of a memory of `n` bytes. -/
def stringAt (mem : Nat → UInt8) (n pt : Nat) : List UInt8 := (span mem pt n).takeWhile (· ≠ 0)

/-! ## Loading -/

/-- `XoAllocDico` when there is room, and whether `realloc` succeeds, which takes no more than an
`int32` of bytes. -/
def growDico (off lgs alloc : Nat) : Nat × Bool :=
  if alloc ≤ off + lgs then
    if 2 ^ 31 ≤ alloc + grainDico then (alloc, false) else growDico off lgs (alloc + grainDico)
  else (alloc, true)
termination_by 2 ^ 31 - alloc
decreasing_by
  rw [grainDico] at *
  omega

/-- `AddInSharedDico`; `heap` is what new memory holds. -/
def addInSharedDico (heap : Nat → UInt8) (d : SharedDico) (s : List UInt8) : SharedDico × Bool :=
  let lgs := s.length + 1
  let mem := d.xoDico.getD heap
  let alloc := if d.xoDico = none then grainDico else d.xoAllocDico
  let (alloc, room) := growDico d.xoOffDico lgs alloc
  if room then
    ({ d with
      xoDico := some (Window.write mem d.xoOffDico (s ++ [0]))
      xoOffDico := d.xoOffDico + lgs
      xoAllocDico := alloc }, true)
  else ({ d with xoDico := some mem, xoAllocDico := alloc }, false)

def newline : UInt8 := 0x0a
def carriageReturn : UInt8 := 0x0d

/-- The pieces that `fgets` reads into a buffer of `1023` bytes. -/
def fgetsPieces (file : List UInt8) : List (List UInt8) :=
  if h : file = [] then []
  else
    let n := min ((file.takeWhile (· ≠ newline)).length + 1) 1022
    file.take n :: fgetsPieces (file.drop n)
termination_by file.length
decreasing_by
  have hpos := List.length_pos_of_ne_nil h
  rw [List.length_drop]
  omega

/-- The entry that a piece gives. -/
def readEntry (buf : List UInt8) : Option (List UInt8) :=
  let s := buf.takeWhile (· ≠ 0)
  if s = [] then none
  else if s.head? = some 0x23 ∨ s.head? = some 0x3b then none
  else
    let s := (s.takeWhile (· ≠ newline)).takeWhile (· ≠ carriageReturn)
    if s = [] then none else some s

/-- The loop that adds entries. -/
def addEntries (heap : Nat → UInt8) : SharedDico → List (List UInt8) → SharedDico × Bool
  | d, [] => (d, true)
  | d, s :: entries =>
    let (d, room) := addInSharedDico heap d s
    if room then addEntries heap d entries else (d, false)

/-- The offsets of so many strings one behind the other. -/
def tableLoop (mem : Nat → UInt8) (alloc : Nat) : Nat → Nat → List Nat
  | 0, _ => []
  | n + 1, pt => pt :: tableLoop mem alloc n (pt + (stringAt mem alloc pt).length + 1)

/-- The string in front of all entries. -/
def entry0 : List UInt8 := ("******shared*********".toList).map fun c => UInt8.ofNat c.toNat

/-- `XoLoadSharedDico`, for a file that can be opened or not. -/
def xoLoadSharedDico (qsort : (Nat → Nat → Ordering) → List Nat → List Nat) (heap : Nat → UInt8)
    (d : SharedDico) (file : Option (List UInt8)) : SharedDico × Int :=
  match file with
  | none => (d, -1)
  | some file =>
    if d.xoDico.isSome ∨ d.xoAllocDico ≠ 0 ∨ d.xoDicoCount ≠ 0 then (d, -2)
    else
      let (d, room) := addInSharedDico heap d entry0
      if ¬room then (d, -3)
      else
        let entries := (fgetsPieces file).filterMap readEntry
        let (d, room) := addEntries heap d entries
        if ¬room then (d, -4)
        else
          let nb := entries.length
          let d := { d with xoDicoCount := nb }
          if nb = 0 then (d, 0)
          else
            let mem := d.xoDico.getD heap
            let tab := tableLoop mem d.xoAllocDico nb
              ((stringAt mem d.xoAllocDico 0).length + 1)
            let entrycmp o1 o2 :=
              compare (stringAt mem d.xoAllocDico o1) (stringAt mem d.xoAllocDico o2)
            ({ d with tabDico := qsort entrycmp tab }, nb)

/-- `XoSharedDicoFree`, which leaves the next offset as it is. -/
def xoSharedDicoFree (d : SharedDico) : SharedDico :=
  { d with xoDico := none, tabDico := [], xoAllocDico := 0, xoDicoCount := 0 }

/-! ## Looking up -/

/-- `memcmp` of the string and its terminator with an entry. -/
def compareEntry (mem : Nat → UInt8) (tab : List Nat) (name : List UInt8) (m : Nat) : Ordering :=
  compare (name ++ [0]) (span mem (tab.getD m 0) (name.length + 1))

/-- `mybsearchdico`: the place of the string, and the place of an entry that it begins with. -/
def mybsearchdico (d : SharedDico) (mem : Nat → UInt8) (name : List UInt8) : Option Nat × Int :=
  let h := (d.xoDicoCount : Int) - 1
  if h ≤ 0 then (none, -1)
  else
    match BinarySearch.locate (compareEntry mem d.tabDico name) d.xoDicoCount 0 h with
    | (some m, place) => (some m, place)
    | (none, place) =>
      if 0 ≤ place then
        let val := stringAt mem d.xoAllocDico (d.tabDico.getD place.toNat 0)
        if compare val ((name ++ [0]).take val.length) = .eq then (none, place) else (none, -1)
      else (none, place)

/-- What `sprintf` writes for a string that is missing, without the zero. -/
def missingMessage (s : List UInt8) : List UInt8 :=
  Printf.ascii "missing '" ++ s ++ Printf.ascii "' in shared dico"

/-- The size of `tmp`. -/
def messageSize : Nat := 256

/-- `__XoFindInSharedDico`: what is returned, and `*offpref`; nothing, if the message of a missing
string is written over the end of its buffer. -/
def findInSharedDico (d : SharedDico) (s : List UInt8) (warn : Bool) : Option (Int × Int) :=
  if s = [] then some (-1, -1)
  else
    match d.xoDico with
    | none => some (-2, -1)
    | some mem =>
      if d.xoAllocDico = 0 ∨ d.xoDicoCount = 0 then some (-2, -1)
      else
        match mybsearchdico d mem s with
        | (some m, _) =>
          if compare s (stringAt mem d.xoAllocDico (d.tabDico.getD m 0)) ≠ .eq then some (0, -1)
          else some (d.tabDico.getD m 0, -1)
        | (none, sameprefixe) =>
          if warn ∧ messageSize ≤ (missingMessage s).length then none
          else if 0 ≤ sameprefixe then some (0, d.tabDico.getD sameprefixe.toNat 0)
          else some (0, -1)

/-! ## What it is for -/

/-- The lines of a file. -/
def lines (file : List UInt8) : List (List UInt8) :=
  if h : file = [] then []
  else
    let line := file.takeWhile (· ≠ newline)
    line :: lines (file.drop (line.length + 1))
termination_by file.length
decreasing_by
  have hpos := List.length_pos_of_ne_nil h
  rw [List.length_drop]
  omega

/-- The entry of a line: the line up to a carriage return or a zero, if it is not a comment. -/
def lineEntry (line : List UInt8) : Option (List UInt8) :=
  let s := line.takeWhile fun c => c ≠ 0 ∧ c ≠ carriageReturn
  if s = [] ∨ s.head? = some 0x23 ∨ s.head? = some 0x3b then none else some s

/-- The entries of a file. -/
def entriesOf (file : List UInt8) : List (List UInt8) := (lines file).filterMap lineEntry

/-- The offset is that of an entry, the string. -/
def IsOffsetOf (d : SharedDico) (off : Int) (s : List UInt8) : Prop :=
  ∃ mem, d.xoDico = some mem ∧ 0 < off ∧ off.toNat ∈ d.tabDico ∧ Spells mem off.toNat (s ++ [0])

/-- An entry is found; for another string there is an entry that it begins with, or none. -/
structure LookupExact (d : SharedDico) (file s : List UInt8) (warn : Bool) : Prop where
  found : s ∈ entriesOf file → ∃ off offpref,
    findInSharedDico d s warn = some (off, offpref) ∧ IsOffsetOf d off s
  missing : s ∉ entriesOf file → ∃ offpref, findInSharedDico d s warn = some (0, offpref) ∧
    (offpref = -1 ∨ ∃ e ∈ entriesOf file, IsOffsetOf d offpref e ∧ e <+: s ∧ e ≠ s)

theorem LookupExact.offset_pos {d : SharedDico} {file s : List UInt8} {warn : Bool}
    (h : LookupExact d file s warn) (hmem : s ∈ entriesOf file) :
    (findInSharedDico d s warn).any fun r => 0 < r.1 := by
  obtain ⟨off, offpref, hfind, -, -, hpos, -⟩ := h.found hmem
  rw [hfind]
  exact decide_eq_true hpos

theorem LookupExact.isSome {d : SharedDico} {file s : List UInt8} {warn : Bool}
    (h : LookupExact d file s warn) (hmem : s ∉ entriesOf file) :
    (findInSharedDico d s warn).isSome := by
  obtain ⟨offpref, hfind, -⟩ := h.missing hmem
  rw [hfind]
  rfl

/-- A string that is missing, when the lookup is to warn of it, is short enough for the message. -/
def MessageFits (file s : List UInt8) (warn : Bool) : Prop :=
  warn = true → s ∉ entriesOf file → s.length ≤ 230

theorem messageFits_iff {file s : List UInt8} {warn : Bool} (hmem : s ∉ entriesOf file) :
    MessageFits file s warn ↔ ¬(warn ∧ messageSize ≤ (missingMessage s).length) := by
  have hlength : (missingMessage s).length = 9 + s.length + 16 := by
    rw [missingMessage, length_append, length_append]
    rfl
  rw [MessageFits, hlength, messageSize]
  constructor
  · rintro h ⟨hwarn, hlong⟩
    have := h hwarn hmem
    omega
  · intro h hwarn _
    by_contra hlong
    exact h ⟨hwarn, by omega⟩

section Memory

variable {mem : Nat → UInt8} {pt n : Nat} {e name : List UInt8}

/-- A string and its terminator. -/
def Holds (mem : Nat → UInt8) (pt : Nat) (e : List UInt8) : Prop :=
  (0 : UInt8) ∉ e ∧ Spells mem pt (e ++ [0])

theorem Holds.stringAt_eq (h : Holds mem pt e) (hlt : e.length < n) : stringAt mem n pt = e := by
  obtain ⟨hzero, hspells⟩ := h
  obtain ⟨he, hend⟩ := spells_append.mp hspells
  obtain ⟨k, rfl⟩ := Nat.exists_eq_add_of_lt hlt
  have hspan : span mem pt (e.length + k + 1) = e ++ 0 :: span mem (pt + e.length + 1) k := by
    rw [Nat.add_assoc, span_add, show span mem pt e.length = e from he, span_succ,
      (spells_cons.mp hend).1]
  have hmem : ∀ c ∈ e, decide (c ≠ 0) = true := fun c hc =>
    decide_eq_true fun heq => hzero (heq ▸ hc)
  rw [stringAt, hspan, takeWhile_append_of_pos hmem, takeWhile_cons_of_neg (by decide),
    append_nil]

theorem compare_zero_left {c : UInt8} (hc : c ≠ 0) : compare 0 c = .lt := by
  have hpos : 0 < c := UInt8.lt_iff_toNat_lt.mpr
    (Nat.pos_of_ne_zero fun heq => hc (UInt8.toNat_inj.mp heq))
  show compareOfLessAndEq 0 c = .lt
  rw [compareOfLessAndEq, if_pos hpos]

theorem compare_terminated (hname : (0 : UInt8) ∉ name) (h : Holds mem pt e) :
    compare (name ++ [0]) (span mem pt (name.length + 1)) = compare name e := by
  induction name generalizing pt e with
  | nil =>
    rw [List.nil_append, span_succ, List.compare_cons_cons]
    cases e with
    | nil =>
      rw [(spells_cons.mp h.2).1]
      rfl
    | cons c e =>
      rw [(spells_cons.mp h.2).1, List.compare_nil_cons,
        compare_zero_left fun heq => h.1 (mem_cons.mpr (.inl heq.symm))]
      rfl
  | cons x name ih =>
    obtain ⟨hx, hzero⟩ := not_or.mp (mt mem_cons.mpr hname)
    rw [List.cons_append, List.length_cons, span_succ, List.compare_cons_cons]
    cases e with
    | nil =>
      rw [(spells_cons.mp h.2).1, List.compare_cons_nil,
        Std.OrientedCmp.gt_of_lt (compare_zero_left fun heq => hx heq.symm)]
      rfl
    | cons c e =>
      obtain ⟨hc, hspells⟩ := spells_cons.mp h.2
      rw [hc, List.compare_cons_cons,
        ih hzero ⟨fun hmem => h.1 (mem_cons_of_mem _ hmem), hspells⟩]

end Memory

section Search

variable {d : SharedDico} {mem : Nat → UInt8} {file s : List UInt8} {i j : Nat}

/-- The string of an offset. -/
def valueAt (d : SharedDico) (mem : Nat → UInt8) (off : Nat) : List UInt8 :=
  stringAt mem d.xoAllocDico off

/-- The dictionary that a file should give. -/
structure WellLoaded (d : SharedDico) (mem : Nat → UInt8) (file : List UInt8) : Prop where
  dico : d.xoDico = some mem
  alloc : d.xoAllocDico ≠ 0
  count : d.xoDicoCount = d.tabDico.length
  two : 2 ≤ d.tabDico.length
  offsets : ∀ off ∈ d.tabDico, 0 < off ∧ Holds mem off (valueAt d mem off)
  sorted : d.tabDico.Pairwise fun o1 o2 => (compare (valueAt d mem o1) (valueAt d mem o2)).isLE
  entries : (d.tabDico.map (valueAt d mem)).Perm (entriesOf file)

namespace WellLoaded

section

variable (h : WellLoaded d mem file)

include h

theorem mem_table (hi : i < d.xoDicoCount) : d.tabDico.getD i 0 ∈ d.tabDico := by
  have hi : i < d.tabDico.length := h.count ▸ hi
  rw [getD_eq_getElem _ _ hi]
  exact getElem_mem hi

theorem mem_entriesOf (hi : i < d.xoDicoCount) :
    valueAt d mem (d.tabDico.getD i 0) ∈ entriesOf file :=
  h.entries.mem_iff.mp (mem_map_of_mem (h.mem_table hi))

theorem compareEntry_eq (hs : (0 : UInt8) ∉ s) (hi : i < d.xoDicoCount) :
    compareEntry mem d.tabDico s i = compare s (valueAt d mem (d.tabDico.getD i 0)) :=
  compare_terminated hs (h.offsets _ (h.mem_table hi)).2

theorem isLE_of_lt (hij : i < j) (hj : j < d.xoDicoCount) :
    (compare (valueAt d mem (d.tabDico.getD i 0))
      (valueAt d mem (d.tabDico.getD j 0))).isLE := by
  have hj : j < d.tabDico.length := h.count ▸ hj
  have hsorted := pairwise_iff_getElem.mp h.sorted i j (by omega) hj hij
  rwa [getD_eq_getElem _ _ (by omega : i < _), getD_eq_getElem _ _ hj]

theorem monotone (hs : (0 : UInt8) ∉ s) :
    Monotone (compareEntry mem d.tabDico s) d.xoDicoCount where
  before i j hij hj hgt := by
    rw [h.compareEntry_eq hs hj] at hgt
    rw [h.compareEntry_eq hs (by omega)]
    exact Std.TransCmp.gt_of_gt_of_isGE hgt
      (Std.OrientedCmp.isGE_iff_isLE.mpr (h.isLE_of_lt hij hj))
  behind i j hij hj hlt := by
    rw [h.compareEntry_eq hs (by omega)] at hlt
    rw [h.compareEntry_eq hs hj]
    exact Std.TransCmp.lt_of_lt_of_isLE hlt (h.isLE_of_lt hij hj)

theorem isOffsetOf (hi : i < d.xoDicoCount) :
    IsOffsetOf d (d.tabDico.getD i 0 : Nat) (valueAt d mem (d.tabDico.getD i 0)) := by
  obtain ⟨hpos, -, hspells⟩ := h.offsets _ (h.mem_table hi)
  exact ⟨mem, h.dico, Int.natCast_pos.mpr hpos, h.mem_table hi, hspells⟩

theorem mybsearchdico_of_mem (hs : (0 : UInt8) ∉ s) (hmem : s ∈ entriesOf file) :
    ∃ i < d.xoDicoCount, ∃ place,
      mybsearchdico d mem s = (some i, place) ∧ valueAt d mem (d.tabDico.getD i 0) = s := by
  have hcount := h.count
  have htwo := h.two
  obtain ⟨off, hoff, hvalue⟩ := mem_map.mp (h.entries.mem_iff.mpr hmem)
  obtain ⟨k, hk, rfl⟩ := getElem_of_mem hoff
  have hequal : compareEntry mem d.tabDico s k = .eq := by
    rw [h.compareEntry_eq hs (by omega), getD_eq_getElem _ _ hk, hvalue]
    exact Std.ReflCmp.compare_self
  rw [mybsearchdico, if_neg (by omega)]
  cases hlocate : locate (compareEntry mem d.tabDico s) d.xoDicoCount 0
    ((d.xoDicoCount : Int) - 1) with
  | mk found place =>
  cases found with
  | none =>
    refine absurd hequal (ne_eq_of_locate (h.monotone hs) (Int.le_refl 0)
      (Int.sub_one_lt_iff.mpr (Int.le_refl _)) (fun i hi => ?_) (fun i hi hlt => ?_) (by omega)
      (congrArg fst hlocate) (by omega))
    · omega
    · omega
  | some i =>
    obtain ⟨hi, heq⟩ := eq_of_locate (Int.le_refl 0)
      (Int.sub_one_lt_iff.mpr (Int.le_refl _)) (congrArg fst hlocate)
    rw [h.compareEntry_eq hs hi] at heq
    exact ⟨i, hi, place, rfl, (Std.LawfulEqCmp.eq_of_compare heq).symm⟩

theorem mybsearchdico_of_not_mem (hs : (0 : UInt8) ∉ s) (hmem : s ∉ entriesOf file) :
    mybsearchdico d mem s = (none, -1) ∨
      ∃ i < d.xoDicoCount, mybsearchdico d mem s = (none, (i : Int)) ∧
        valueAt d mem (d.tabDico.getD i 0) <+: s := by
  have hcount := h.count
  have htwo := h.two
  have hplaces : 0 ≤ (locate (compareEntry mem d.tabDico s) d.xoDicoCount 0
        ((d.xoDicoCount : Int) - 1)).2 ∧
      (locate (compareEntry mem d.tabDico s) d.xoDicoCount 0
        ((d.xoDicoCount : Int) - 1)).2 < (d.xoDicoCount : Int) :=
    locate_where (Int.le_refl 0) (Int.sub_one_lt_iff.mpr (Int.le_refl _)) (by omega)
      (by omega)
  rw [mybsearchdico, if_neg (by omega)]
  cases hlocate : locate (compareEntry mem d.tabDico s) d.xoDicoCount 0
    ((d.xoDicoCount : Int) - 1) with
  | mk found place =>
  rw [hlocate] at hplaces
  obtain ⟨hplace, hplace'⟩ := hplaces
  cases found with
  | some i =>
    obtain ⟨hi, heq⟩ := eq_of_locate (Int.le_refl 0)
      (Int.sub_one_lt_iff.mpr (Int.le_refl _)) (congrArg fst hlocate)
    rw [h.compareEntry_eq hs hi] at heq
    exact absurd (Std.LawfulEqCmp.eq_of_compare heq ▸ h.mem_entriesOf hi) hmem
  | none =>
    obtain ⟨i, rfl⟩ := Int.eq_ofNat_of_zero_le hplace
    dsimp only
    rw [if_pos hplace]
    split
    · next heq =>
      have hi := Int.ofNat_lt.mp hplace'
      refine .inr ⟨i, hi, rfl, ?_⟩
      have hprefix : valueAt d mem (d.tabDico.getD i 0) <+: s ++ [0] := by
        rw [Int.toNat_natCast] at heq
        rw [valueAt, Std.LawfulEqCmp.eq_of_compare heq]
        exact take_prefix _ _
      rcases prefix_concat_iff.mp hprefix with hwhole | hpart
      · have hzero := (h.offsets _ (h.mem_table hi)).2.1
        rw [hwhole] at hzero
        exact absurd (mem_append_right _ (mem_singleton_self _)) hzero
      · exact hpart
    · exact .inl rfl

/-- **The lookup** in a dictionary that has been loaded as it should be is exact as long as its
message fits. -/
theorem lookupExact_iff {warn : Bool} (hne : s ≠ []) (hs : (0 : UInt8) ∉ s) :
    LookupExact d file s warn ↔ MessageFits file s warn := by
  have hcount : ¬(d.xoAllocDico = 0 ∨ d.xoDicoCount = 0) := by
    have htwo := h.two
    rw [← h.count] at htwo
    exact not_or.mpr ⟨h.alloc, by omega⟩
  have hfind : findInSharedDico d s warn = match mybsearchdico d mem s with
      | (some m, _) =>
        if compare s (stringAt mem d.xoAllocDico (d.tabDico.getD m 0)) ≠ .eq then some (0, -1)
        else some (d.tabDico.getD m 0, -1)
      | (none, sameprefixe) =>
        if warn ∧ messageSize ≤ (missingMessage s).length then none
        else if 0 ≤ sameprefixe then some (0, d.tabDico.getD sameprefixe.toNat 0)
        else some (0, -1) := by
    rw [findInSharedDico, if_neg hne]
    simp only [h.dico, if_neg hcount]
  by_cases hmem : s ∈ entriesOf file
  · refine iff_of_true ⟨fun _ => ?_, fun hnot => absurd hmem hnot⟩ fun _ hnot => absurd hmem hnot
    obtain ⟨i, hi, place, hsearch, hvalue⟩ := h.mybsearchdico_of_mem hs hmem
    have hequal : compare s (stringAt mem d.xoAllocDico (d.tabDico.getD i 0)) = .eq := by
      rw [show stringAt mem d.xoAllocDico (d.tabDico.getD i 0) = s from hvalue]
      exact Std.ReflCmp.compare_self
    refine ⟨d.tabDico.getD i 0, -1, ?_, hvalue ▸ h.isOffsetOf hi⟩
    rw [hfind, hsearch]
    exact if_neg (not_not_intro hequal)
  · have hsearched := h.mybsearchdico_of_not_mem hs hmem
    rw [messageFits_iff hmem]
    by_cases hlong : warn ∧ messageSize ≤ (missingMessage s).length
    · refine iff_of_false (fun hexact => ?_) (not_not_intro hlong)
      obtain ⟨offpref, hsome, -⟩ := hexact.missing hmem
      rcases hsearched with hsearch | ⟨i, -, hsearch, -⟩ <;>
      · rw [hfind, hsearch] at hsome
        dsimp only at hsome
        rw [if_pos hlong] at hsome
        cases hsome
    · refine iff_of_true ⟨fun h => absurd h hmem, fun _ => ?_⟩ hlong
      rcases hsearched with hsearch | ⟨i, hi, hsearch, hprefix⟩
      · refine ⟨-1, ?_, .inl rfl⟩
        rw [hfind, hsearch]
        exact if_neg hlong
      · refine ⟨d.tabDico.getD i 0, ?_, .inr ⟨_, h.mem_entriesOf hi, h.isOffsetOf hi, hprefix,
          fun heq => hmem (heq ▸ h.mem_entriesOf hi)⟩⟩
        rw [hfind, hsearch]
        exact if_neg hlong

end

end WellLoaded

end Search

section Lines

variable {file line : List UInt8}

/-- A piece up to its end. -/
def pieceText (buf : List UInt8) : List UInt8 :=
  ((buf.takeWhile (· ≠ 0)).takeWhile (· ≠ newline)).takeWhile (· ≠ carriageReturn)

theorem readEntry_eq {buf : List UInt8} : readEntry buf = if pieceText buf = [] ∨
    (pieceText buf).head? = some 0x23 ∨ (pieceText buf).head? = some 0x3b then none
    else some (pieceText buf) := by
  have hhead {c : UInt8} (hnl : c ≠ newline) (hcr : c ≠ carriageReturn) :
      (pieceText buf).head? = some c ↔ (buf.takeWhile (· ≠ 0)).head? = some c := by
    rw [pieceText, head?_takeWhile, head?_takeWhile, Option.filter_eq_some_iff,
      Option.filter_eq_some_iff, and_assoc]
    exact and_iff_left ⟨decide_eq_true hnl, decide_eq_true hcr⟩
  simp only [hhead (show (0x23 : UInt8) ≠ newline by decide) (by decide),
    hhead (show (0x3b : UInt8) ≠ newline by decide) (by decide)]
  rw [readEntry]
  by_cases hempty : buf.takeWhile (· ≠ 0) = []
  · rw [if_pos hempty, if_pos (.inl (by rw [pieceText, hempty]; rfl))]
  · rw [if_neg hempty]
    by_cases hcomment : (buf.takeWhile (· ≠ 0)).head? = some 0x23 ∨
      (buf.takeWhile (· ≠ 0)).head? = some 0x3b
    · rw [if_pos hcomment, if_pos (.inr hcomment)]
    · rw [if_neg hcomment]
      simp only [or_iff_left hcomment]
      rfl

theorem readEntry_newline : readEntry [newline] = none := by decide

theorem pieceText_line (hline : newline ∉ line) {rest : List UInt8}
    (hrest : rest = [] ∨ rest = [newline]) :
    pieceText (line ++ rest) = line.takeWhile fun c => c ≠ 0 ∧ c ≠ carriageReturn := by
  induction line with
  | nil =>
    rcases hrest with rfl | rfl
    · rfl
    · decide
  | cons c line ih =>
    obtain ⟨hc, hline⟩ := not_or.mp (mt mem_cons.mpr hline)
    rw [cons_append, pieceText]
    by_cases hzero : c = 0
    · rw [takeWhile_cons_of_neg (by simpa using hzero),
        takeWhile_cons_of_neg (fun h => (of_decide_eq_true h).1 hzero)]
      rfl
    · rw [takeWhile_cons_of_pos (by simpa using hzero),
        takeWhile_cons_of_pos (by simpa using Ne.symm hc)]
      by_cases hcr : c = carriageReturn
      · rw [takeWhile_cons_of_neg (by simpa using hcr),
          takeWhile_cons_of_neg (fun h => (of_decide_eq_true h).2 hcr)]
      · rw [takeWhile_cons_of_pos (by simpa using hcr),
          takeWhile_cons_of_pos (by simpa using And.intro hzero hcr), ← ih hline]
        rfl

theorem readEntry_line (hline : newline ∉ line) {rest : List UInt8}
    (hrest : rest = [] ∨ rest = [newline]) : readEntry (line ++ rest) = lineEntry line := by
  rw [readEntry_eq, pieceText_line hline hrest]
  rfl

theorem fgetsPieces_of_ne_nil (h : file ≠ []) : fgetsPieces file =
    file.take (min ((file.takeWhile (· ≠ newline)).length + 1) 1022) ::
      fgetsPieces (file.drop (min ((file.takeWhile (· ≠ newline)).length + 1) 1022)) := by
  rw [fgetsPieces, dif_neg h]

theorem lines_of_ne_nil (h : file ≠ []) : lines file = file.takeWhile (· ≠ newline) ::
    lines (file.drop ((file.takeWhile (· ≠ newline)).length + 1)) := by
  rw [lines, dif_neg h]

theorem exists_line (file : List UInt8) : ∃ line rest, newline ∉ line ∧
    (file = line ∧ rest = [] ∨ file = line ++ newline :: rest) ∧
    file.takeWhile (· ≠ newline) = line ∧ file.drop (line.length + 1) = rest := by
  induction file with
  | nil => exact ⟨[], [], not_mem_nil, .inl ⟨rfl, rfl⟩, rfl, rfl⟩
  | cons c file ih =>
    by_cases hc : c = newline
    · subst hc
      exact ⟨[], file, not_mem_nil, .inr rfl, rfl, rfl⟩
    · obtain ⟨line, rest, hline, hfile, htake, hdrop⟩ := ih
      refine ⟨c :: line, rest, fun hmem => ?_, hfile.imp ?_ ?_, ?_, hdrop⟩
      · rcases mem_cons.mp hmem with heq | hmem
        · exact hc heq.symm
        · exact hline hmem
      · rintro ⟨rfl, rfl⟩
        exact ⟨rfl, rfl⟩
      · rintro rfl
        rfl
      · rw [takeWhile_cons_of_pos (by simpa using hc), htake]

theorem filterMap_fgetsPieces (hshort : ∀ line ∈ lines file, line.length ≤ 1022) :
    (fgetsPieces file).filterMap readEntry = entriesOf file := by
  induction hlen : file.length using Nat.strong_induction_on generalizing file with
  | _ n ih =>
  by_cases hne : file = []
  · subst hne
    rw [fgetsPieces, entriesOf, lines]
    rfl
  obtain ⟨line, rest, hline, hfile, htake, hdrop⟩ := exists_line file
  rw [lines_of_ne_nil hne, htake, hdrop] at hshort
  obtain ⟨hshort, hrest⟩ := forall_mem_cons.mp hshort
  have hlt : rest.length < file.length := by
    have hpos := length_pos_of_ne_nil hne
    rw [← hdrop, length_drop]
    omega
  have ih := ih rest.length (hlen ▸ hlt) hrest rfl
  have hentries : entriesOf file = (line :: lines rest).filterMap lineEntry := by
    rw [entriesOf, lines_of_ne_nil hne, htake, hdrop]
  rw [hentries, fgetsPieces_of_ne_nil hne, htake, filterMap_cons, filterMap_cons]
  rw [entriesOf] at ih
  rcases Nat.lt_or_eq_of_le hshort with hlt | heq
  · rw [Nat.min_eq_left (by omega), hdrop, ih]
    rcases hfile with ⟨rfl, -⟩ | rfl
    · have hpiece := readEntry_line hline (.inl rfl : ([] : List UInt8) = [] ∨ _)
      rw [append_nil] at hpiece
      rw [take_of_length_le (by omega), hpiece]
    · rw [take_append, take_of_length_le (by omega), Nat.add_sub_cancel_left,
        take_succ_cons, take_zero, readEntry_line hline (.inr rfl)]
  · have hpiece := readEntry_line hline (.inl rfl : ([] : List UInt8) = [] ∨ _)
    rw [append_nil] at hpiece
    rw [Nat.min_eq_right (by omega), ← heq]
    rcases hfile with ⟨rfl, rfl⟩ | rfl
    · rw [take_length, drop_length, hpiece, ← ih]
    · have hend : fgetsPieces (newline :: rest) = [newline] :: fgetsPieces rest := by
        rw [fgetsPieces_of_ne_nil (cons_ne_nil _ _)]
        rfl
      rw [take_left, drop_left, hend, filterMap_cons, readEntry_newline, hpiece, ih]

end Lines

variable {qsort : (Nat → Nat → Ordering) → List Nat → List Nat}

section Load

variable {heap mem : Nat → UInt8} {d d' : SharedDico} {es : List (List UInt8)} {s : List UInt8}
  {off lgs alloc alloc' pt : Nat}

theorem growDico_spec (h : growDico off lgs alloc = (alloc', true)) : off + lgs < alloc' := by
  fun_induction growDico off lgs alloc with
  | case1 alloc hle hlarge => cases h
  | case2 alloc hle hsmall ih => exact ih h
  | case3 alloc hlt =>
    obtain rfl := congrArg fst h
    exact not_le.mp hlt

/-- Strings one behind the other, with their terminators. -/
def laid (es : List (List UInt8)) : List UInt8 := es.flatMap (· ++ [0])

/-- The memory holds the bytes, the next offset is behind them, and there is room. -/
structure Filled (d : SharedDico) (mem : Nat → UInt8) (content : List UInt8) : Prop where
  dico : d.xoDico = some mem
  held : Spells mem 0 content
  next : d.xoOffDico = content.length
  room : d.xoOffDico < d.xoAllocDico

variable {content : List UInt8}

theorem addInSharedDico_spec (hheld : Spells (d.xoDico.getD heap) 0 content)
    (hnext : d.xoOffDico = content.length) (h : addInSharedDico heap d s = (d', true)) :
    ∃ mem, Filled d' mem (content ++ (s ++ [0])) := by
  rw [addInSharedDico] at h
  cases hgrow : growDico d.xoOffDico (s.length + 1)
    (if d.xoDico = none then grainDico else d.xoAllocDico) with
  | mk alloc room =>
  simp only [hgrow] at h
  cases room with
  | false => cases congrArg snd h
  | true =>
    obtain rfl := congrArg fst h
    refine ⟨_, rfl, ?_, ?_, growDico_spec hgrow⟩
    · rw [spells_append, Nat.zero_add, ← hnext]
      refine ⟨hheld.congr fun k _ hk => write_of_lt ?_, spells_write⟩
      omega
    · show d.xoOffDico + (s.length + 1) = _
      rw [length_append, ← hnext, length_append, length_singleton]

theorem addEntries_spec (hd : Filled d mem content) (h : addEntries heap d es = (d', true)) :
    ∃ mem, Filled d' mem (content ++ laid es) := by
  induction es generalizing d mem content with
  | nil =>
    obtain rfl := congrArg fst h
    exact ⟨mem, by rwa [laid, flatMap_nil, append_nil]⟩
  | cons s es ih =>
    rw [addEntries] at h
    cases hadd : addInSharedDico heap d s with
    | mk d₁ room =>
    simp only [hadd] at h
    cases room with
    | false => cases congrArg snd h
    | true =>
      obtain ⟨mem₁, hfilled⟩ := addInSharedDico_spec (by rw [hd.dico]; exact hd.held) hd.next hadd
      obtain ⟨mem', hfilled⟩ := ih hfilled h
      exact ⟨mem', by rwa [append_assoc] at hfilled⟩

theorem tableLoop_spec (hzero : ∀ e ∈ es, (0 : UInt8) ∉ e) (hpt : 0 < pt)
    (hheld : Spells mem pt (laid es)) (hroom : pt + (laid es).length ≤ alloc) :
    (tableLoop mem alloc es.length pt).map (stringAt mem alloc) = es ∧
      ∀ off ∈ tableLoop mem alloc es.length pt, 0 < off ∧
        Holds mem off (stringAt mem alloc off) := by
  induction es generalizing pt with
  | nil => exact ⟨rfl, forall_mem_nil _⟩
  | cons e es ih =>
    obtain ⟨he, hzero⟩ := forall_mem_cons.mp hzero
    have hlaid : laid (e :: es) = e ++ [0] ++ laid es := rfl
    rw [hlaid] at hheld hroom
    obtain ⟨hhead, htail⟩ := spells_append.mp hheld
    rw [length_append, length_append, length_singleton] at hroom
    have hstring : stringAt mem alloc pt = e := Holds.stringAt_eq ⟨he, hhead⟩ (by omega)
    rw [length_append, length_singleton, ← Nat.add_assoc] at htail
    obtain ⟨hmap, hall⟩ := ih hzero (by omega : 0 < pt + e.length + 1) htail (by omega)
    rw [length_cons, tableLoop, hstring]
    refine ⟨by rw [map_cons, hstring, hmap], forall_mem_cons.mpr ⟨⟨hpt, ?_⟩, hall⟩⟩
    rw [hstring]
    exact ⟨he, hhead⟩

theorem zero_notMem_of_mem_entriesOf {file e : List UInt8} (h : e ∈ entriesOf file) :
    (0 : UInt8) ∉ e := by
  obtain ⟨line, -, hline⟩ := mem_filterMap.mp h
  rw [lineEntry] at hline
  split at hline
  · cases hline
  · obtain rfl := Option.some.inj hline
    intro hmem
    have hkept := mem_takeWhile_imp hmem
    exact (of_decide_eq_true hkept).1 rfl

/-- What is asked of `qsort`: it sorts by a comparison that orders. -/
def IsQsort (qsort : (Nat → Nat → Ordering) → List Nat → List Nat) : Prop :=
  ∀ cmp, Std.TransCmp cmp → ∀ l,
    (qsort cmp l).Perm l ∧ (qsort cmp l).Pairwise fun a b => (cmp a b).isLE

variable {file : List UInt8} {r : Int}

/-- **Loading** a file without long lines and with more than one entry, when no zero stands in the
memory in front of the next offset. -/
theorem wellLoaded_of_load (hqsort : IsQsort qsort) (hoff : ∀ k < d.xoOffDico, heap k ≠ 0)
    (hone : (entriesOf file).length ≠ 1) (hshort : ∀ line ∈ lines file, line.length ≤ 1022)
    (hdico : d.xoDico = none) (h : xoLoadSharedDico qsort heap d (some file) = (d', r))
    (hr : 0 < r) : ∃ mem, WellLoaded d' mem file := by
  rw [xoLoadSharedDico] at h
  simp only [filterMap_fgetsPieces hshort] at h
  split at h
  · obtain rfl := congrArg snd h
    omega
  cases hfirst : addInSharedDico heap d entry0 with
  | mk d₁ room₁ =>
  simp only [hfirst] at h
  cases room₁ with
  | false =>
    rw [if_pos Bool.false_ne_true] at h
    have hfail : r = -3 := (congrArg snd h).symm
    omega
  | true =>
  rw [if_neg (not_not_intro rfl)] at h
  have hfront : Spells (d.xoDico.getD heap) 0 (span heap 0 d.xoOffDico) := by
    rw [hdico, Option.getD_none, Spells, length_span]
  obtain ⟨mem₁, hfilled₁⟩ := addInSharedDico_spec hfront length_span.symm hfirst
  cases hentries : addEntries heap d₁ (entriesOf file) with
  | mk d₂ room₂ =>
  simp only [hentries] at h
  cases room₂ with
  | false =>
    rw [if_pos Bool.false_ne_true] at h
    have hfail : r = -4 := (congrArg snd h).symm
    omega
  | true =>
  rw [if_neg (not_not_intro rfl)] at h
  obtain ⟨mem, hfilled⟩ := addEntries_spec hfilled₁ hentries
  split at h
  · obtain rfl := congrArg snd h
    omega
  next hempty =>
  obtain rfl := congrArg fst h
  generalize hfirst : span heap 0 d.xoOffDico ++ entry0 = first at hfilled
  rw [← append_assoc, hfirst] at hfilled
  have hfirstZero : (0 : UInt8) ∉ first := by
    rw [← hfirst, mem_append, not_or]
    refine ⟨fun hmem => ?_, by decide⟩
    obtain ⟨k, hk, hzero⟩ := mem_map.mp hmem
    rw [mem_range'_1, Nat.zero_add] at hk
    exact hoff k hk.2 hzero
  have hheld := hfilled.held
  have hroom := hfilled.room
  rw [hfilled.next, length_append, length_append, length_singleton] at hroom
  obtain ⟨hhead, htail⟩ := spells_append.mp hheld
  rw [length_append, length_singleton, Nat.zero_add] at htail
  have hstring : stringAt mem d₂.xoAllocDico 0 = first :=
    Holds.stringAt_eq ⟨hfirstZero, hhead⟩ (by omega)
  have hzero : ∀ e ∈ entriesOf file, (0 : UInt8) ∉ e := fun e => zero_notMem_of_mem_entriesOf
  obtain ⟨hmap, hall⟩ := tableLoop_spec hzero (Nat.succ_pos _) htail hroom.le
  rw [hfilled.dico, Option.getD_some, hstring]
  generalize tableLoop mem d₂.xoAllocDico (entriesOf file).length (first.length + 1) = tab at *
  obtain ⟨hperm, hsorted⟩ := hqsort (compareOn (stringAt mem d₂.xoAllocDico)) inferInstance tab
  have hlength := (hperm.length_eq.trans (length_map _).symm).trans (congrArg _ hmap)
  refine ⟨mem, rfl, ?_, hlength.symm, ?_, fun off hoff => ?_, hsorted, ?_⟩
  · show d₂.xoAllocDico ≠ 0
    omega
  · show 2 ≤ (qsort (compareOn (stringAt mem d₂.xoAllocDico)) tab).length
    omega
  · exact hall off (hperm.mem_iff.mp hoff)
  · exact (hperm.map (stringAt mem d₂.xoAllocDico)).trans (.of_eq hmap)

end Load

section Runs

/-- The dictionary, and the file that has been loaded last. -/
structure DicoRun where
  dico : SharedDico
  loaded : Option (List UInt8)

inductive Event where
  | load (heap : Nat → UInt8) (file : Option (List UInt8))
  | free
  | find (s : List UInt8) (warn : Bool)

namespace DicoRun

variable (qsort : (Nat → Nat → Ordering) → List Nat → List Nat)

def initial : DicoRun := ⟨.initial, none⟩

/-- Loading a file, which may fail, freeing, or a lookup, which changes nothing. -/
def step (s : DicoRun) : Event → Option DicoRun
  | .load heap file =>
    let (dico, r) := xoLoadSharedDico qsort heap s.dico file
    some ⟨dico, if 0 < r then file else s.loaded⟩
  | .free => some ⟨xoSharedDicoFree s.dico, none⟩
  | .find _ _ => some s

/-- What is loaded has more than one entry and no line that is longer than the buffer, and no zero
is in the memory in front of where an earlier dictionary ended; the message of a lookup fits. -/
def Sound (s : DicoRun) : Event → Prop
  | .load heap (some file) => s.dico.xoDico = none →
    (∀ k < s.dico.xoOffDico, heap k ≠ 0) ∧ (entriesOf file).length ≠ 1 ∧
      ∀ line ∈ lines file, line.length ≤ 1022
  | .load _ none => True
  | .free => True
  | .find str warn => ∀ file, s.loaded = some file → MessageFits file str warn

/-- A lookup of a string, while a file is loaded, is what it should be. -/
def Exact (s : DicoRun) : Event → Prop
  | .find str warn => ∀ file, s.loaded = some file → str ≠ [] → (0 : UInt8) ∉ str →
    LookupExact s.dico file str warn
  | _ => True

/-- What is loaded has been loaded as it should be. -/
def Inv (s : DicoRun) : Prop := ∀ file, s.loaded = some file → ∃ mem, WellLoaded s.dico mem file

end DicoRun

open DicoRun

variable {s t : DicoRun} {e : Event}

theorem inv_step (hqsort : IsQsort qsort) (hs : Inv s) (hsound : Sound s e)
    (h : step qsort s e = some t) : Inv t := by
  cases e with
  | find str warn =>
    obtain rfl := Option.some.inj h
    exact hs
  | free =>
    obtain rfl := Option.some.inj h
    intro file hfile
    cases hfile
  | load heap file =>
    cases hload : xoLoadSharedDico qsort heap s.dico file with
    | mk d r =>
    simp only [step, hload] at h
    obtain rfl := Option.some.inj h
    intro file' hloaded
    cases file with
    | none =>
      obtain ⟨rfl, rfl⟩ := Prod.mk.inj hload
      exact hs file' hloaded
    | some file =>
      by_cases hdico : s.dico.xoDico = none
      · obtain ⟨hoff, hone, hshort⟩ := hsound hdico
        split at hloaded
        · next hr =>
          obtain rfl := Option.some.inj hloaded
          exact wellLoaded_of_load hqsort hoff hone hshort hdico hload hr
        · obtain ⟨mem, hwell⟩ := hs file' hloaded
          cases hdico.symm.trans hwell.dico
      · have hkept : xoLoadSharedDico qsort heap s.dico (some file) = (s.dico, -2) := by
          exact if_pos (.inl (Option.isSome_iff_ne_none.mpr hdico))
        obtain ⟨rfl, rfl⟩ := Prod.mk.inj (hkept.symm.trans hload)
        exact hs file' hloaded

theorem exact_step (hs : Inv s) (hsound : Sound s e) : Exact s e := by
  cases e with
  | find str warn =>
    intro file hfile hne hzero
    obtain ⟨mem, hwell⟩ := hs file hfile
    exact (hwell.lookupExact_iff hne hzero).mpr (hsound file hfile)
  | _ => trivial

/-- **Lookups**: in every run that loads files with more than one entry and no long line, into
memory without a zero where an earlier dictionary was, every lookup is exact whose message, when
there is one, fits its buffer. -/
theorem lookups_exact (hqsort : IsQsort qsort) {es : List Event}
    (h : Run.Along (step qsort) Sound initial es) : Run.Along (step qsort) Exact initial es :=
  Run.along_of_invariant (I := Inv)
    (fun _ _ _ hs hsound hstep => ⟨exact_step hs hsound, inv_step hqsort hs hsound hstep⟩)
    (by rintro _ ⟨⟩) h

/-- A sort by insertion. -/
def insertingSort (cmp : Nat → Nat → Ordering) (l : List Nat) : List Nat :=
  l.insertionSort fun a b => (cmp a b).isLE

theorem isQsort_insertingSort : IsQsort insertingSort := by
  intro cmp hcmp l
  have htrans : IsTrans Nat fun a b => (cmp a b).isLE :=
    ⟨fun _ _ _ hab hbc => Std.TransCmp.isLE_trans hab hbc⟩
  have htotal : Std.Total fun a b => (cmp a b).isLE = true := by
    refine ⟨fun a b => ?_⟩
    by_cases hle : (cmp a b).isLE
    · exact .inl hle
    · rw [Std.OrientedCmp.lt_of_not_isLE hle]
      exact .inr rfl
  exact ⟨perm_insertionSort _ l, pairwise_insertionSort _ l⟩

/-- Two entries. -/
def pairFile : List UInt8 := [0x61, newline, 0x62, newline]

/-- Both entries are found, and for a string that one of them begins with its entry is given. -/
theorem lookups_exact_pair :
    Run.Along (step insertingSort) Exact initial [.load (fun _ => 1) (some pairFile),
        .find [0x62] true, .find [0x61, 0x61] true, .free] ∧
      (Run.exec (step insertingSort) initial [.load (fun _ => 1) (some pairFile)]).map
        (fun s => (s.loaded, findInSharedDico s.dico [0x62] true,
          findInSharedDico s.dico [0x61, 0x61] true)) =
        some (some pairFile, some (24, -1), some (0, 22)) :=
  ⟨lookups_exact isQsort_insertingSort fun _ _ =>
    ⟨fun _ => ⟨by decide, by decide +kernel, by decide +kernel⟩, fun _ _ =>
      ⟨fun _ _ _ _ => by decide, fun _ _ => ⟨fun _ _ _ _ => by decide, fun _ _ =>
        ⟨trivial, trivial⟩⟩⟩⟩,
    by decide +kernel⟩

/-- The only entry of a file is not found, no entry is when a file is loaded again into memory that
is zero, and the message of a missing string of 231 bytes does not fit. -/
theorem not_exact_single_reload :
    ¬Run.Along (step insertingSort) Exact initial
        [.load (fun _ => 0) (some [0x61, newline]), .find [0x61] false] ∧
      ¬Run.Along (step insertingSort) Exact initial
        [.load (fun _ => 0) (some pairFile), .free, .load (fun _ => 0) (some pairFile),
          .find [0x61] false] ∧
      ¬Run.Along (step insertingSort) Exact initial
        [.load (fun _ => 0) (some pairFile), .find (replicate 231 0x63) true] := by
  refine ⟨fun h => ?_, fun h => ?_, fun h => ?_⟩
  · have hexact := ((h _ rfl).2 _ rfl).1 [0x61, newline] (by decide +kernel) (by decide) (by decide)
    exact absurd (hexact.offset_pos (by decide +kernel)) (by decide +kernel)
  · have hexact := ((((h _ rfl).2 _ rfl).2 _ rfl).2 _ rfl).1 pairFile (by decide +kernel)
      (by decide) (by decide)
    exact absurd (hexact.offset_pos (by decide +kernel)) (by decide +kernel)
  · have hexact := ((h _ rfl).2 _ rfl).1 pairFile (by decide +kernel) (by decide) (by decide)
    exact absurd (hexact.isSome (by decide +kernel)) (by decide +kernel)

end Runs

end Ong.Xo
