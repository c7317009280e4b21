import Mathlib.Data.List.Induction
import Ong.Lib.Printf

/-!
# XML namespaces

A document declares prefixes for URIs, and perhaps a default namespace.  Its names are mapped to the
prefixes under which the program has configured these URIs, the pivot prefixes.

## Main results

* `findPivotNameSpace_declare`: a prefix stands for the first declaration that binds it
* `mapped_iff_unclashed`
-/

namespace Ong.Xo

open List Option

/-- The bytes of a string, without the zero at the end. -/
abbrev Str := List UInt8

def colon : UInt8 := 0x3a

def xmlns : Str := Printf.ascii "xmlns"

def xomlMaxNamespace : Nat := 32

/-- `t_ns` -/
structure Ns where
  userprf : Str
  pivotprf : Option Str
  uri : Str

/-- `t_nsctxt` -/
structure NsCtxt where
  ns : List Ns := []
  nsdefault : Option Str := none

def xoDropPrefixe (qname : Str) : Str :=
  match qname.dropWhile (· != colon) with
  | [] => qname
  | _ :: name => name

def toLower (b : UInt8) : UInt8 := if 65 ≤ b ∧ b ≤ 90 then b + 32 else b

/-- `strcasecmp(a, b) == 0` -/
def caseEq (a b : Str) : Bool := a.map toLower == b.map toLower

/-- `_XoFindCfgNameSpace`, with the entry for its index. -/
def xoFindCfgNameSpace (cfg : NsCtxt) (uri : Str) : Option Ns :=
  (cfg.ns.take xomlMaxNamespace).find? fun e => caseEq uri e.uri

def findPivotNameSpace (nsctxt : NsCtxt) (pref : Str) : Option Str :=
  (nsctxt.ns.find? fun e => e.userprf == pref).bind Ns.pivotprf

/-- `_XoDoName`, where `cfg` is the table of the configuration. -/
def xoDoName (cfg nsctxt : NsCtxt) (aqname : Str) (avalue : Option Str) : Str :=
  let value := avalue.getD []
  if cfg.ns.isEmpty then aqname
  else if value ≠ [] ∧ aqname = xmlns then aqname
  else if value ≠ [] ∧ aqname.take 6 = xmlns ++ [colon] then
    match xoFindCfgNameSpace cfg value with
    | none => aqname
    | some e => xmlns ++ colon :: e.userprf
  else if colon ∈ aqname then
    match findPivotNameSpace nsctxt (aqname.takeWhile (· != colon)) with
    | none => aqname
    | some piv => piv ++ colon :: xoDropPrefixe aqname
  else
    match nsctxt.nsdefault with
    | some piv => piv ++ colon :: aqname
    | none => aqname

/-- The part of `_XoAddNameSpace` behind the name: a name that is bound already is dropped or
refused, another one is appended. -/
def addName (cfg : Option NsCtxt) (nsctxt : NsCtxt) (name : Str) (isDef : Bool) (uri : Str) :
    Nat × NsCtxt :=
  if xomlMaxNamespace ≤ nsctxt.ns.length then (0, nsctxt)
  else
    match nsctxt.ns.find? fun e => !e.userprf.isEmpty && e.userprf == name with
    | some e => if e.uri ≠ uri then (0, nsctxt) else (nsctxt.ns.length, nsctxt)
    | none =>
      match cfg with
      | some cfg =>
        match xoFindCfgNameSpace cfg uri with
        | none => (0, nsctxt)
        | some found =>
          let userprf := if isDef then found.userprf else name
          (nsctxt.ns.length + 1,
            { ns := nsctxt.ns ++ [⟨userprf, some found.userprf, found.uri⟩]
              nsdefault := if isDef then some found.userprf else nsctxt.nsdefault })
      | none =>
        (nsctxt.ns.length + 1,
          { ns := nsctxt.ns ++ [⟨name, none, uri⟩]
            nsdefault := if isDef then some name else nsctxt.nsdefault })

/-- `_XoAddNameSpace`: in the table of the configuration when there is no `cfg`, else in the table
of a document. -/
def xoAddNameSpace (cfg : Option NsCtxt) (nsctxt : NsCtxt) (pname uri : Str) : Nat × NsCtxt :=
  match cfg with
  | some _ =>
    if pname.take 5 ≠ xmlns then (0, nsctxt)
    else if xoDropPrefixe pname = [] then (0, nsctxt)
    else addName cfg nsctxt (xoDropPrefixe pname) (decide (xoDropPrefixe pname = pname)) uri
  | none =>
    if pname.head? = some 0x2a then addName none nsctxt pname.tail true uri
    else addName none nsctxt pname false uri

/-! ### The declarations of a document -/

/-- A prefix, or the default namespace, and a URI. -/
structure Decl where
  pref : Option Str
  uri : Str

/-- The attribute of a declaration. -/
def Decl.pname (d : Decl) : Str :=
  match d.pref with
  | none => xmlns
  | some p => xmlns ++ colon :: p

/-- The table after a declaration. -/
def declareOne (cfg nsctxt : NsCtxt) (d : Decl) : NsCtxt :=
  (xoAddNameSpace (some cfg) nsctxt d.pname d.uri).2

/-- The table of a document. -/
def declare (cfg : NsCtxt) (ds : List Decl) : NsCtxt := ds.foldl (declareOne cfg) {}

/-- The pivot prefix of a URI. -/
def pivot (cfg : NsCtxt) (uri : Str) : Option Str := (xoFindCfgNameSpace cfg uri).map Ns.userprf

/-- An attribute that declares a namespace, and is no name to be mapped. -/
def IsDeclaration (aqname : Str) (avalue : Option Str) : Prop :=
  avalue.getD [] ≠ [] ∧ (aqname = xmlns ∨ aqname.take 6 = xmlns ++ [colon])

/-- The documents that are spoken of. -/
structure WellDeclared (cfg : NsCtxt) (ds : List Decl) : Prop where
  length : ds.length ≤ xomlMaxNamespace
  configured : ∀ d ∈ ds, pivot cfg d.uri ≠ none
  named : ∀ d ∈ ds, ∀ p, d.pref = some p → p ≠ [] ∧ colon ∉ p
  once : ∀ d ∈ ds, ∀ d' ∈ ds, d.pref = d'.pref → d.pref ≠ none → d.uri = d'.uri
  oneDefault : (ds.filter fun d => d.pref.isNone).length ≤ 1

/-- A name in the namespace of a declaration. -/
def Decl.qname (d : Decl) (n : Str) : Str :=
  match d.pref with
  | none => n
  | some p => p ++ colon :: n

/-- Every name of a document gets the pivot prefix of the URI that is declared for it. -/
def Mapped (cfg : NsCtxt) (ds : List Decl) : Prop :=
  ∀ d ∈ ds, ∀ n avalue, (d.pref = none → colon ∉ n) → ¬IsDeclaration (d.qname n) avalue →
    ∃ piv, pivot cfg d.uri = some piv ∧
      xoDoName cfg (declare cfg ds) (d.qname n) avalue = piv ++ colon :: n

/-- Two documents map the names of one namespace to the same names, whatever their prefixes. -/
def SameNames (cfg : NsCtxt) (ds ds' : List Decl) : Prop :=
  ∀ d ∈ ds, ∀ d' ∈ ds', d.uri = d'.uri → ∀ n avalue avalue', colon ∉ n →
    ¬IsDeclaration (d.qname n) avalue → ¬IsDeclaration (d'.qname n) avalue' →
      xoDoName cfg (declare cfg ds) (d.qname n) avalue =
        xoDoName cfg (declare cfg ds') (d'.qname n) avalue'

/-- The default namespace and the prefixes do not meet: in front of the default declaration the
prefix `xmlns` is not declared, and a prefix that is first declared behind it, and is its pivot
prefix, has a URI with that pivot prefix. -/
def Unclashed (cfg : NsCtxt) (ds : List Decl) : Prop :=
  ∀ before d after, ds = before ++ d :: after → d.pref = none →
    (∀ e ∈ before, e.pref ≠ some xmlns) ∧
      ∀ e ∈ after, (∀ f ∈ before, f.pref ≠ e.pref) → e.pref ≠ none → e.pref = pivot cfg d.uri →
        pivot cfg e.uri = pivot cfg d.uri

variable {cfg nsctxt : NsCtxt} {ds : List Decl} {d : Decl} {p n x : Str}
  {avalue : Option Str} {found : Ns} {before after : List Decl}

/-! ### Names and prefixes -/

theorem bne_colon (hp : colon ∉ p) : ∀ a ∈ p, (a != colon) = true := fun _ ha =>
  bne_iff_ne.mpr fun h => hp (h ▸ ha)

theorem xoDropPrefixe_append (hp : colon ∉ p) : xoDropPrefixe (p ++ colon :: n) = n := by
  have hdrop : (p ++ colon :: n).dropWhile (· != colon) = colon :: n := by
    rw [dropWhile_append_of_pos (bne_colon hp)]
    exact dropWhile_cons_of_neg (by simp)
  rw [xoDropPrefixe, hdrop]

theorem takeWhile_append (hp : colon ∉ p) : (p ++ colon :: n).takeWhile (· != colon) = p := by
  rw [takeWhile_append_of_pos (bne_colon hp), takeWhile_cons_of_neg (by simp),
    append_nil]

theorem colon_notMem_xmlns : colon ∉ xmlns := by decide

theorem xoDoName_of_not_declaration (hcfg : cfg.ns ≠ []) {aqname : Str}
    (h : ¬IsDeclaration aqname avalue) :
    xoDoName cfg nsctxt aqname avalue =
      if colon ∈ aqname then
        match findPivotNameSpace nsctxt (aqname.takeWhile (· != colon)) with
        | none => aqname
        | some piv => piv ++ colon :: xoDropPrefixe aqname
      else
        match nsctxt.nsdefault with
        | some piv => piv ++ colon :: aqname
        | none => aqname := by
  simp only [xoDoName]
  rw [if_neg (mt List.isEmpty_iff.mp hcfg), if_neg fun hx => h ⟨hx.1, .inl hx.2⟩,
    if_neg fun hx => h ⟨hx.1, .inr hx.2⟩]

/-! ### The table of a document -/

/-- The entry that a name has. -/
def bound (nsctxt : NsCtxt) (name : Str) : Option Ns := nsctxt.ns.find? fun e => e.userprf == name

/-- The name under which a declaration is looked up: that of the default namespace is `xmlns`. -/
def Decl.name (d : Decl) : Str := d.pref.getD xmlns

/-- The entry of a declaration: the default namespace stands under its pivot prefix. -/
def Decl.entry (cfg : NsCtxt) (d : Decl) : Option Ns :=
  (xoFindCfgNameSpace cfg d.uri).map fun found =>
    ⟨d.pref.getD found.userprf, some found.userprf, found.uri⟩

section

variable (h : ∀ p, d.pref = some p → p ≠ [] ∧ colon ∉ p)

include h

theorem xoAddNameSpace_pname :
    xoAddNameSpace (some cfg) nsctxt d.pname d.uri =
      addName (some cfg) nsctxt d.name (d.pref.isNone) d.uri := by
  rcases d with ⟨_ | p, uri⟩
  · rfl
  · obtain ⟨hne, -⟩ := h p rfl
    have hdrop : xoDropPrefixe (xmlns ++ colon :: p) = p := xoDropPrefixe_append colon_notMem_xmlns
    have hlen : p ≠ xmlns ++ colon :: p := fun h => by
      have := congrArg length h
      simp only [length_append, length_cons] at this
      omega
    have htake : (xmlns ++ colon :: p).take 5 = xmlns := @take_left _ xmlns _
    simp only [xoAddNameSpace, Decl.pname, hdrop, htake]
    rw [if_neg fun h => h rfl, if_neg hne, decide_eq_false hlen]
    rfl

theorem name_ne_nil : d.name ≠ [] := by
  rcases d with ⟨_ | p, uri⟩
  · exact (by decide : xmlns ≠ [])
  · exact (h p rfl).1

theorem declareOne_eq (hlen : nsctxt.ns.length < xomlMaxNamespace)
    (hfound : xoFindCfgNameSpace cfg d.uri = some found) :
    declareOne cfg nsctxt d =
      if (bound nsctxt d.name).isSome then nsctxt
      else
        { ns := nsctxt.ns ++ (d.entry cfg).toList
          nsdefault := if d.pref.isNone then some found.userprf else nsctxt.nsdefault } := by
  have hfind : (nsctxt.ns.find? fun e => !e.userprf.isEmpty && e.userprf == d.name) =
      bound nsctxt d.name := by
    congr 1
    funext e
    by_cases he : e.userprf = d.name
    · rw [he, beq_self_eq_true, Bool.and_true, isEmpty_eq_false_iff.mpr (name_ne_nil h)]
      rfl
    · rw [beq_eq_false_iff_ne.mpr he, Bool.and_false]
  rw [declareOne, xoAddNameSpace_pname h, addName, if_neg (Nat.not_le_of_lt hlen), hfind, hfound,
    Decl.entry, hfound]
  cases bound nsctxt d.name with
  | some e =>
    dsimp only
    split <;> rfl
  | none =>
    rcases d with ⟨_ | p, uri⟩ <;> rfl

end

theorem declare_concat : declare cfg (ds ++ [d]) = declareOne cfg (declare cfg ds) d := by
  rw [declare, foldl_append]
  rfl

theorem WellDeclared.of_append {ds' : List Decl} (h : WellDeclared cfg (ds ++ ds')) :
    WellDeclared cfg ds where
  length := by
    have := h.length
    rw [length_append] at this
    omega
  configured e he := h.configured e (mem_append_left _ he)
  named e he := h.named e (mem_append_left _ he)
  once e he e' he' := h.once e (mem_append_left _ he) e' (mem_append_left _ he')
  oneDefault := by
    have := h.oneDefault
    rw [filter_append, length_append] at this
    omega

theorem WellDeclared.exists_found (h : WellDeclared cfg ds) (hd : d ∈ ds) :
    ∃ found, xoFindCfgNameSpace cfg d.uri = some found := by
  cases hf : xoFindCfgNameSpace cfg d.uri with
  | none => exact absurd (by rw [pivot, hf]; rfl) (h.configured d hd)
  | some found => exact ⟨found, rfl⟩

theorem length_declare_le (h : WellDeclared cfg ds) : (declare cfg ds).ns.length ≤ ds.length := by
  induction ds using reverseRecOn with
  | nil => exact le_rfl
  | append_singleton ds d ih =>
    have ih := ih h.of_append
    have hlen := h.length
    rw [length_append, length_singleton] at hlen ⊢
    obtain ⟨found, hfound⟩ := h.exists_found (mem_append_right ds (mem_singleton_self d))
    rw [declare_concat, declareOne_eq (h.named d (mem_append_right ds mem_cons_self))
      (by omega) hfound]
    split
    · omega
    · have : (d.entry cfg).toList.length ≤ 1 := by cases d.entry cfg <;> simp
      rw [length_append]
      omega

/-- In front of a default declaration the prefix `xmlns` is not declared. -/
def Accepted (ds : List Decl) : Prop :=
  ∀ before d after, ds = before ++ d :: after → d.pref = none → ∀ e ∈ before, e.pref ≠ some xmlns

theorem Accepted.of_concat (h : Accepted (ds ++ [d])) : Accepted ds := fun before e after hds =>
  h before e (after ++ [d]) (by rw [hds, append_assoc, cons_append])

theorem WellDeclared.pref_ne_none (h : WellDeclared cfg (before ++ d :: after))
    (hd : d.pref = none) : (∀ e ∈ before, e.pref ≠ none) ∧ ∀ e ∈ after, e.pref ≠ none := by
  have hone := h.oneDefault
  rw [filter_append, filter_cons_of_pos (by rw [hd]; rfl), length_append,
    length_cons] at hone
  have hnil (l : List Decl) (hl : (l.filter fun d => d.pref.isNone).length = 0) :
      ∀ e ∈ l, e.pref ≠ none := fun e he hnone =>
    filter_eq_nil_iff.mp (length_eq_zero_iff.mp hl) e he (by rw [hnone]; rfl)
  exact ⟨hnil before (by omega), hnil after (by omega)⟩

theorem mem_filterMap_entry {e : Ns} (he : e ∈ ds.filterMap (Decl.entry cfg)) :
    ∃ d ∈ ds, ∃ found, xoFindCfgNameSpace cfg d.uri = some found ∧
      e = ⟨d.pref.getD found.userprf, some found.userprf, found.uri⟩ := by
  obtain ⟨d, hd, hentry⟩ := mem_filterMap.mp he
  obtain ⟨found, hfound, rfl⟩ := map_eq_some_iff.mp hentry
  exact ⟨d, hd, found, hfound, rfl⟩

theorem find?_xmlns (h : WellDeclared cfg (ds ++ [d])) (hacc : Accepted (ds ++ [d]))
    (hpref : d.pref = none) :
    ((ds.filterMap (Decl.entry cfg)).find? fun e => e.userprf == xmlns) = none := by
  refine find?_eq_none.mpr fun e he hname => ?_
  obtain ⟨d', hd', found, -, rfl⟩ := mem_filterMap_entry he
  have hsome := ((h.pref_ne_none hpref).1 d' hd')
  obtain ⟨p, hp⟩ := ne_none_iff_exists'.mp hsome
  rw [hp, getD_some, beq_iff_eq] at hname
  exact hacc ds d [] rfl hpref d' hd' (hname ▸ hp)

/-- **A name stands for the first declaration that binds it**, as if all of them were appended. -/
theorem bound_declare (h : WellDeclared cfg ds) (hacc : Accepted ds) :
    bound (declare cfg ds) x = (ds.filterMap (Decl.entry cfg)).find? fun e => e.userprf == x := by
  induction ds using reverseRecOn generalizing x with
  | nil => rfl
  | append_singleton ds d ih =>
    have ih := @ih
    replace ih (x : Str) := ih (x := x) h.of_append hacc.of_concat
    have hd : d ∈ ds ++ [d] := mem_append_right ds (mem_singleton_self d)
    have hlen := length_declare_le h.of_append
    have hlen' := h.length
    rw [length_append, length_singleton] at hlen'
    obtain ⟨found, hfound⟩ := h.exists_found hd
    have hentry : d.entry cfg =
        some ⟨d.pref.getD found.userprf, some found.userprf, found.uri⟩ := by
      rw [Decl.entry, hfound, map_some]
    rw [declare_concat, declareOne_eq (h.named d hd) (by omega) hfound, filterMap_append,
      find?_append, ← ih, filterMap_cons_some hentry, filterMap_nil]
    by_cases hbound : (bound (declare cfg ds) d.name).isSome
    · rw [if_pos hbound]
      cases hpref : d.pref with
      | none =>
        rw [ih, Decl.name, hpref, getD_none, find?_xmlns h hacc hpref] at hbound
        exact absurd hbound Bool.false_ne_true
      | some p =>
        rw [Decl.name, hpref, getD_some] at hbound
        by_cases hx : p = x
        · rw [← hx, or_of_isSome hbound]
        · rw [find?_cons_of_neg (by simpa using hx), find?_nil, or_none]
    · rw [if_neg hbound, bound, hentry, toList_some, find?_append]
      rfl

/-- The prefix that a declaration binds. -/
def Decl.binds (cfg : NsCtxt) (d : Decl) : Option Str := d.pref.or (pivot cfg d.uri)

theorem find?_entry (h : ∀ d ∈ ds, ∃ found, xoFindCfgNameSpace cfg d.uri = some found) :
    (ds.filterMap (Decl.entry cfg)).find? (fun e => e.userprf == x) =
      (ds.find? fun d => d.binds cfg == some x).bind (Decl.entry cfg) := by
  induction ds with
  | nil => rfl
  | cons d ds ih =>
    obtain ⟨⟨found, hfound⟩, hrest⟩ := forall_mem_cons.mp h
    have hentry : d.entry cfg =
        some ⟨d.pref.getD found.userprf, some found.userprf, found.uri⟩ := by
      rw [Decl.entry, hfound, map_some]
    have hbinds : d.binds cfg = some (d.pref.getD found.userprf) := by
      rw [Decl.binds, pivot, hfound, map_some]
      cases d.pref <;> rfl
    rw [filterMap_cons_some hentry]
    by_cases hx : d.pref.getD found.userprf = x
    · rw [find?_cons_of_pos (by simpa using hx), find?_cons_of_pos, bind_some,
        hentry]
      rw [hbinds, hx, beq_self_eq_true]
    · rw [find?_cons_of_neg (by simpa using hx), ih hrest, find?_cons_of_neg]
      rw [hbinds]
      simpa using hx

/-- A prefix is mapped to the pivot prefix of the first declaration that binds it. -/
theorem findPivotNameSpace_declare (h : WellDeclared cfg ds) (hacc : Accepted ds) :
    findPivotNameSpace (declare cfg ds) x =
      (ds.find? fun d => d.binds cfg == some x).bind fun d => pivot cfg d.uri := by
  have hbound : findPivotNameSpace (declare cfg ds) x =
      (bound (declare cfg ds) x).bind Ns.pivotprf := rfl
  have hentry (d : Decl) : (d.entry cfg).bind Ns.pivotprf = pivot cfg d.uri := by
    rw [Decl.entry, pivot]
    cases xoFindCfgNameSpace cfg d.uri <;> rfl
  rw [hbound, bound_declare h hacc, find?_entry fun d hd => h.exists_found hd, bind_assoc]
  simp only [hentry]

theorem nsdefault_declare (h : WellDeclared cfg ds) (hacc : Accepted ds) :
    (declare cfg ds).nsdefault =
      (ds.find? fun d => d.pref.isNone).bind fun d => pivot cfg d.uri := by
  induction ds using reverseRecOn with
  | nil => rfl
  | append_singleton ds d ih =>
    have hd : d ∈ ds ++ [d] := mem_append_right ds (mem_singleton_self d)
    have hlen := length_declare_le h.of_append
    have hlen' := h.length
    rw [length_append, length_singleton] at hlen'
    obtain ⟨found, hfound⟩ := h.exists_found hd
    have ih := ih h.of_append hacc.of_concat
    rw [declare_concat, declareOne_eq (h.named d hd) (by omega) hfound, find?_append]
    cases hpref : d.pref with
    | none =>
      have hnone : (ds.find? fun d => d.pref.isNone) = none :=
        find?_eq_none.mpr fun e he hisNone =>
          (h.pref_ne_none hpref).1 e he (isNone_iff_eq_none.mp hisNone)
      -- the first default declaration is accepted, as nothing binds `xmlns` before it
      rw [if_neg, hnone, none_or, find?_cons_of_pos (by rw [hpref]; rfl),
        bind_some, pivot, hfound]
      · rfl
      · rw [bound_declare h.of_append hacc.of_concat, Decl.name, hpref, getD_none,
          find?_xmlns h hacc hpref]
        exact Bool.false_ne_true
    | some p =>
      rw [find?_cons_of_neg (by rw [hpref]; exact Bool.false_ne_true), find?_nil,
        or_none, ← ih]
      split <;> rfl

theorem nsdefault_declareOne (h : ∀ p, d.pref = some p → p ≠ [] ∧ colon ∉ p) (hd : d.pref ≠ none) :
    (declareOne cfg nsctxt d).nsdefault = nsctxt.nsdefault := by
  obtain ⟨p, hp⟩ := ne_none_iff_exists'.mp hd
  have hdef : d.pref.isNone = false := by rw [hp]; rfl
  rw [declareOne, xoAddNameSpace_pname h, hdef, addName]
  split
  · rfl
  · split
    · split <;> rfl
    · cases xoFindCfgNameSpace cfg d.uri <;> rfl

theorem nsdefault_foldl (h : ∀ e ∈ ds, ∀ p, e.pref = some p → p ≠ [] ∧ colon ∉ p)
    (hds : ∀ e ∈ ds, e.pref ≠ none) :
    (ds.foldl (declareOne cfg) nsctxt).nsdefault = nsctxt.nsdefault := by
  induction ds generalizing nsctxt with
  | nil => rfl
  | cons d ds ih =>
    rw [forall_mem_cons] at h hds
    rw [foldl_cons, ih h.2 hds.2, nsdefault_declareOne h.1 hds.1]

theorem nsdefault_declare_eq_none (h : WellDeclared cfg (before ++ d :: after))
    (hpref : d.pref = none) {e : Decl} (he : e ∈ before) (hxmlns : e.pref = some xmlns) :
    (declare cfg (before ++ d :: after)).nsdefault = none := by
  have hone := h.pref_ne_none hpref
  have hbefore : WellDeclared cfg before := h.of_append
  have hacc : Accepted before := fun l f l' hl hf =>
    absurd hf (hone.1 f (hl ▸ mem_append_right l mem_cons_self))
  have hmem : d ∈ before ++ d :: after := mem_append_right _ mem_cons_self
  have hbound : (bound (declare cfg before) d.name).isSome := by
    obtain ⟨found, hfound⟩ := hbefore.exists_found he
    rw [bound_declare hbefore hacc, Decl.name, hpref, getD_none, find?_isSome]
    refine ⟨⟨xmlns, some found.userprf, found.uri⟩, mem_filterMap.mpr ⟨e, he, ?_⟩,
      beq_self_eq_true _⟩
    rw [Decl.entry, hfound, hxmlns]
    rfl
  obtain ⟨found, hfound⟩ := h.exists_found hmem
  have hlen := length_declare_le hbefore
  have hlen' := h.length
  rw [length_append, length_cons] at hlen'
  have hsplit : declare cfg (before ++ d :: after) =
      after.foldl (declareOne cfg) (declareOne cfg (declare cfg before) d) := by
    rw [declare, foldl_append, foldl_cons]
    rfl
  rw [hsplit, nsdefault_foldl
    (fun f hf => h.named f (mem_append_right _ (mem_cons_of_mem _ hf))) hone.2,
    declareOne_eq (h.named d hmem) (by omega) hfound, if_pos hbound]
  exact nsdefault_foldl (fun f hf => hbefore.named f hf) hone.1

/-! ### Which documents are mapped -/

theorem WellDeclared.ns_ne_nil (h : WellDeclared cfg ds) (hd : d ∈ ds) : cfg.ns ≠ [] := fun hnil =>
  h.configured d hd (by rw [pivot, xoFindCfgNameSpace, hnil]; rfl)

theorem WellDeclared.default_unique {d' : Decl} (h : WellDeclared cfg ds) (hd : d ∈ ds)
    (hd' : d' ∈ ds) (hpref : d.pref = none) (hpref' : d'.pref = none) : d = d' := by
  obtain ⟨before, after, rfl⟩ := append_of_mem hd'
  have hone := h.pref_ne_none hpref'
  rcases mem_append.mp hd with hd | hd
  · exact absurd hpref (hone.1 d hd)
  · rcases mem_cons.mp hd with hd | hd
    · exact hd
    · exact absurd hpref (hone.2 d hd)

theorem Unclashed.accepted (h : Unclashed cfg ds) : Accepted ds := fun before d after hds hpref =>
  (h before d after hds hpref).1

theorem binds_of_pref (hd : d.pref = some p) : d.binds cfg = some p := by
  rw [Decl.binds, hd, some_or]

theorem findPivotNameSpace_of_unclashed (h : WellDeclared cfg ds) (hclash : Unclashed cfg ds)
    (hd : d ∈ ds) (hpref : d.pref = some p) :
    findPivotNameSpace (declare cfg ds) p = pivot cfg d.uri := by
  rw [findPivotNameSpace_declare h hclash.accepted]
  cases hfind : ds.find? fun d => d.binds cfg == some p with
  | none =>
    exact absurd (beq_iff_eq.mpr (binds_of_pref hpref)) (find?_eq_none.mp hfind d hd)
  | some d' =>
    obtain ⟨hbinds, before, after, hds, hfirst⟩ := find?_eq_some_iff_append.mp hfind
    have hbinds : d'.binds cfg = some p := beq_iff_eq.mp hbinds
    have hd' : d' ∈ ds := hds ▸ mem_append_right _ mem_cons_self
    rw [bind_some]
    cases hpref' : d'.pref with
    | some p' =>
      rw [binds_of_pref hpref'] at hbinds
      have huri := h.once d' hd' d hd (by rw [hpref', hpref, hbinds])
        (by rw [hpref']; exact some_ne_none p')
      rw [huri]
    | none =>
      have hfresh : ∀ f ∈ before, f.pref ≠ d.pref := fun f hf heq => by
        have := hfirst f hf
        rw [binds_of_pref (heq.trans hpref)] at this
        simp at this
      have hafter : d ∈ after := by
        rw [hds] at hd
        rcases mem_append.mp hd with hd | hd
        · exact absurd rfl (hfresh d hd)
        · refine (mem_cons.mp hd).resolve_left fun heq => ?_
          rw [heq, hpref'] at hpref
          exact some_ne_none p hpref.symm
      rw [Decl.binds, hpref', none_or] at hbinds
      exact ((hclash before d' after hds hpref').2 d hafter hfresh
        (by rw [hpref]; exact some_ne_none p) (by rw [hpref, hbinds])).symm

theorem mapped_of_unclashed (h : WellDeclared cfg ds) (hclash : Unclashed cfg ds) :
    Mapped cfg ds := by
  intro d hd n avalue hn hdecl
  obtain ⟨piv, hpiv⟩ := ne_none_iff_exists'.mp (h.configured d hd)
  refine ⟨piv, hpiv, ?_⟩
  rw [xoDoName_of_not_declaration (h.ns_ne_nil hd) hdecl, Decl.qname]
  cases hpref : d.pref with
  | some p =>
    obtain ⟨-, hcolon⟩ := h.named d hd p hpref
    rw [if_pos (mem_append_right _ mem_cons_self), takeWhile_append hcolon,
      xoDropPrefixe_append hcolon, findPivotNameSpace_of_unclashed h hclash hd hpref, hpiv]
  | none =>
    have hfind : ds.find? (fun d => d.pref.isNone) = some d := by
      cases hfind : ds.find? fun d => d.pref.isNone with
      | none => exact absurd (by rw [hpref]; rfl) (find?_eq_none.mp hfind d hd)
      | some d' =>
        have hisNone : d'.pref.isNone = true :=
          find?_some (p := fun d : Decl => d.pref.isNone) hfind
        have hnone := isNone_iff_eq_none.mp hisNone
        rw [h.default_unique hd (mem_of_find?_eq_some hfind) hpref hnone]
    rw [if_neg (hn hpref), nsdefault_declare h hclash.accepted, hfind, bind_some, hpiv]

theorem Mapped.qname_nil (hm : Mapped cfg ds) (hd : d ∈ ds) :
    ∃ piv, pivot cfg d.uri = some piv ∧
      xoDoName cfg (declare cfg ds) (d.qname []) none = piv ++ [colon] ∧
        ¬IsDeclaration (d.qname []) none :=
  have hdecl : ¬IsDeclaration (d.qname []) none := fun h => h.1 rfl
  let ⟨piv, hpiv, hname⟩ := hm d hd [] none (fun _ => not_mem_nil) hdecl
  ⟨piv, hpiv, hname, hdecl⟩

theorem Mapped.accepted (h : WellDeclared cfg ds) (hm : Mapped cfg ds) : Accepted ds := by
  rintro before d after rfl hpref e he hxmlns
  have hd : d ∈ before ++ d :: after := mem_append_right _ mem_cons_self
  obtain ⟨piv, -, hname, hdecl⟩ := hm.qname_nil hd
  rw [xoDoName_of_not_declaration (h.ns_ne_nil hd) hdecl,
    nsdefault_declare_eq_none h hpref he hxmlns, Decl.qname, hpref] at hname
  exact append_ne_nil_of_right_ne_nil piv (cons_ne_nil colon []) hname.symm

theorem unclashed_of_mapped (h : WellDeclared cfg ds) (hm : Mapped cfg ds) : Unclashed cfg ds := by
  have hacc := hm.accepted h
  rintro before d after rfl hpref
  refine ⟨hacc before d after rfl hpref, fun e he hfresh hsome hkey => ?_⟩
  obtain ⟨p, hp⟩ := ne_none_iff_exists'.mp hsome
  have hmem : e ∈ before ++ d :: after := mem_append_right _ (mem_cons_of_mem _ he)
  obtain ⟨-, hcolon⟩ := h.named e hmem p hp
  have hfind : findPivotNameSpace (declare cfg (before ++ d :: after)) p = pivot cfg d.uri := by
    have hbinds : d.binds cfg = some p := by rw [Decl.binds, hpref, none_or, ← hkey, hp]
    have hnone : before.find? (fun d => d.binds cfg == some p) = none := by
      refine find?_eq_none.mpr fun f hf hbinds => ?_
      obtain ⟨p', hp'⟩ := ne_none_iff_exists'.mp ((h.pref_ne_none hpref).1 f hf)
      rw [binds_of_pref hp', beq_iff_eq] at hbinds
      exact hfresh f hf (by rw [hp', hbinds, hp])
    rw [findPivotNameSpace_declare h hacc, find?_append, hnone, none_or,
      find?_cons_of_pos (by rw [hbinds, beq_self_eq_true]), bind_some]
  obtain ⟨piv, hpiv, hname, hdecl⟩ := hm.qname_nil hmem
  obtain ⟨dpiv, hdpiv⟩ := ne_none_iff_exists'.mp
    (h.configured d (mem_append_right _ mem_cons_self))
  rw [xoDoName_of_not_declaration (h.ns_ne_nil hmem) hdecl, Decl.qname, hp] at hname
  rw [if_pos (mem_append_right _ mem_cons_self), takeWhile_append hcolon,
    xoDropPrefixe_append hcolon, hfind, hdpiv] at hname
  rw [hpiv, hdpiv, append_cancel_right hname]

/-- **The names of a document are mapped** exactly if its default namespace and its prefixes do not
meet, and two documents of which this is so have the same names. -/
theorem mapped_iff_unclashed (h : WellDeclared cfg ds) :
    (Mapped cfg ds ↔ Unclashed cfg ds) ∧
      ∀ ds', WellDeclared cfg ds' → Unclashed cfg ds → Unclashed cfg ds' →
        SameNames cfg ds ds' := by
  refine ⟨⟨unclashed_of_mapped h, mapped_of_unclashed h⟩, fun ds' h' hclash hclash' => ?_⟩
  intro d hd d' hd' huri n avalue avalue' hn hdecl hdecl'
  obtain ⟨piv, hpiv, hname⟩ := mapped_of_unclashed h hclash d hd n avalue (fun _ => hn) hdecl
  obtain ⟨piv', hpiv', hname'⟩ :=
    mapped_of_unclashed h' hclash' d' hd' n avalue' (fun _ => hn) hdecl'
  rw [huri, hpiv'] at hpiv
  rw [hname, hname', Option.some.inj hpiv]

/-- The pivot prefixes `a` and `b`. -/
def twoPivots : NsCtxt :=
  { ns := [⟨Printf.ascii "a", none, Printf.ascii "u"⟩, ⟨Printf.ascii "b", none, Printf.ascii "v"⟩] }

/-- A document that uses `a` for the URI of `b`. -/
def prefixA : Decl := ⟨some (Printf.ascii "a"), Printf.ascii "v"⟩

/-- A default namespace with the URI of `a`. -/
def defaultA : Decl := ⟨none, Printf.ascii "u"⟩

theorem wellDeclared_twoPivots {ds : List Decl}
    (hds : ds = [prefixA, defaultA] ∨ ds = [defaultA, prefixA]) : WellDeclared twoPivots ds := by
  have hnamed : ∀ p, prefixA.pref = some p → p ≠ [] ∧ colon ∉ p := by
    rintro p hp
    rw [← Option.some.inj hp]
    decide
  have hdefault : ∀ p, defaultA.pref = some p → p ≠ [] ∧ colon ∉ p := fun p hp =>
    (some_ne_none p hp.symm).elim
  rcases hds with rfl | rfl
  · exact ⟨by decide, by decide,
      forall_mem_cons.mpr ⟨hnamed, forall_mem_singleton.mpr hdefault⟩, by decide,
      by decide⟩
  · exact ⟨by decide, by decide,
      forall_mem_cons.mpr ⟨hdefault, forall_mem_singleton.mpr hnamed⟩, by decide,
      by decide⟩

/-- With the prefix in front of the default namespace the names are mapped. -/
theorem mapped_prefix_first : Mapped twoPivots [prefixA, defaultA] := by
  refine (mapped_iff_unclashed (wellDeclared_twoPivots (.inl rfl))).1.mpr ?_
  rintro (_ | ⟨b, _ | ⟨c, before⟩⟩) d after hds hpref
  · obtain ⟨rfl, -⟩ := cons.inj hds
    exact (Option.some_ne_none _ hpref).elim
  · obtain ⟨rfl, hrest⟩ := cons.inj hds
    obtain ⟨rfl, rfl⟩ := cons.inj (show [defaultA] = d :: after from hrest)
    exact ⟨forall_mem_singleton.mpr (by decide), forall_mem_nil _⟩
  · have := congrArg length hds
    simp only [length_append, length_cons, length_nil] at this
    omega

/-- With the default namespace in front of it, the prefix stands for the default namespace. -/
theorem not_mapped_default_first :
    ¬∀ (cfg : NsCtxt) (ds : List Decl), WellDeclared cfg ds → Mapped cfg ds := by
  intro h
  obtain ⟨piv, hpiv, hname, -⟩ := (h _ _ (wellDeclared_twoPivots (.inr rfl))).qname_nil
    (mem_cons_of_mem defaultA (mem_singleton_self prefixA))
  have : piv = Printf.ascii "b" := Option.some.inj (hpiv.symm.trans (by decide))
  rw [this] at hname
  exact absurd hname (by decide)

end Ong.Xo
