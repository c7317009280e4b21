import Ong.Lib.PrefixSearch
import Ong.Lib.Run
import Ong.Lib.TreeMap
import Ong.Util.CharacterUtils

/-!
# Paths of servlets

A container maps paths to servlets, in a map for every request and in a private one for local
requests.  A path is kept with a slash at its end, and the servlet of a request is that of the
longest path that the request's begins with.

## Main results

* `resolveLocalServlet_spec`: the servlet of a request
-/

namespace Ong.Song

open List

open Util (JavaString ch javaString)
open PrefixSearch (Outcome)

def slash : UInt16 := ch '/'

/-- `String.compareTo` compares the ranks of the characters. -/
def rank (s : JavaString) : List Nat := s.map UInt16.toNat

/-- A servlet, or a session of one, with the context path of the servlet. -/
structure SongNode where
  id : Nat
  contextPath : JavaString
  deriving DecidableEq

abbrev Routes := TreeMap rank SongNode

structure SongContainer where
  pathRoutes : Routes
  privatePathRoutes : Routes

structure MatchResult where
  songNode : SongNode
  contextPath : JavaString
  servletPath : JavaString
  pathInfo : JavaString
  deriving DecidableEq

/-- `String.endsWith("/")` -/
def endsWithSlash (s : JavaString) : Bool := s.getLast? = some slash

/-- The path with a slash at its end. -/
def withSlash (s : JavaString) : JavaString := if endsWithSlash s then s else s ++ [slash]

/-- `String.substring`, which may throw an exception. -/
def substring (s : JavaString) (start stop : Int) : Option JavaString :=
  if 0 ≤ start ∧ start ≤ stop ∧ stop ≤ s.length then
    some ((s.take stop.toNat).drop start.toNat)
  else none

/-! ## Searching -/

/-- `map.headMap(input).lastKey()`, or nothing where that throws `NoSuchElementException`. -/
def lastKeyBefore (map : Routes) (input : JavaString) : Option JavaString :=
  (map.entries.filter fun e => rank e.1 < rank input).getLast?.map Prod.fst

/-- `findBestPrefix`, for at most so many rounds of its loop. -/
def findBestPrefix (n : Nat) (map : Routes) (input : JavaString) : Outcome (Option JavaString) :=
  PrefixSearch.search (lastKeyBefore map) slash n input

/-- What one of the maps gives for a request. -/
structure Route where
  node : SongNode
  servletPath : JavaString
  pathInfo : JavaString

/-- The search in one of the maps. -/
def findRoute (n : Nat) (map : Routes) (realPath path : JavaString) : Outcome (Option Route) :=
  match findBestPrefix n map realPath with
  | .unfinished => .unfinished
  | .thrown => .thrown
  | .returned none => .returned none
  | .returned (some bestPrefix) =>
    match map.get bestPrefix with
    | none => .returned none
    | some node =>
      let pathInfo := if bestPrefix.length + 1 < realPath.length then
          substring realPath ((bestPrefix.length : Int) - 1) path.length
        else some [slash]
      match pathInfo, substring bestPrefix 0 ((bestPrefix.length : Int) - 1) with
      | some pathInfo, some servletPath => .returned (some ⟨node, servletPath, pathInfo⟩)
      | _, _ => .thrown

/-- The end of `resolveLocalServlet`. -/
def matchResult (contextPath : Option JavaString) : Outcome (Option Route) →
    Outcome (Option MatchResult)
  | .unfinished => .unfinished
  | .thrown => .thrown
  | .returned none => .returned none
  | .returned (some route) =>
    match substring route.servletPath route.node.contextPath.length route.servletPath.length with
    | none => .thrown
    | some realServletPath =>
      .returned (some ⟨route.node, contextPath.getD route.node.contextPath, realServletPath,
        route.pathInfo⟩)

namespace SongContainer

/-- `resolveLocalServlet`, with so many rounds for each search. -/
def resolveLocalServlet (c : SongContainer) (n : Nat) (contextPath : Option JavaString)
    (path : JavaString) (localRequest : Bool) : Outcome (Option MatchResult) :=
  let realPath := if endsWithSlash path then path ++ [slash] else path ++ [slash, slash]
  match if localRequest then findRoute n c.privatePathRoutes realPath path else .returned none with
  | .returned none => matchResult contextPath (findRoute n c.pathRoutes realPath path)
  | route => matchResult contextPath route

/-! ## Adding and removing -/

/-- `addPath`; there is nothing where `NamespaceException` is thrown. -/
def addPath (c : SongContainer) (fullPath : JavaString) (privatePath : Bool) (node : SongNode) :
    Option SongContainer :=
  if (c.pathRoutes.get fullPath).isSome ∨ (c.privatePathRoutes.get fullPath).isSome then none
  else if privatePath then
    some { c with privatePathRoutes := c.privatePathRoutes.put fullPath node }
  else some { c with pathRoutes := c.pathRoutes.put fullPath node }

def removePath (c : SongContainer) (contextPath : JavaString) (path : Option JavaString) :
    SongContainer :=
  match path with
  | none => c
  | some path =>
    let realPath := withSlash (contextPath ++ path)
    if (c.pathRoutes.get realPath).isSome then
      { c with pathRoutes := c.pathRoutes.remove realPath }
    else { c with privatePathRoutes := c.privatePathRoutes.remove realPath }

def initial : SongContainer := ⟨.empty, .empty⟩

end SongContainer

/-- The paths that a servlet may ask for. -/
def goodPath (path : JavaString) : Bool :=
  path.head? = some slash ∧ ¬(1 < path.length ∧ endsWithSlash path) ∧ ch '*' ∉ path

/-- What servlets ask for, each with the context path of its own context. -/
inductive PathEvent where
  | addPath (contextPath path : JavaString) (privatePath : Bool) (id : Nat)
  | removePath (contextPath : JavaString) (path : Option JavaString)

/-- An exception leaves the container as it is. -/
def PathEvent.apply (c : SongContainer) : PathEvent → Option SongContainer
  | .addPath contextPath path privatePath id =>
    if goodPath path then
      some ((c.addPath (withSlash (contextPath ++ path)) privatePath ⟨id, contextPath⟩).getD c)
    else some c
  | .removePath contextPath path => some (c.removePath contextPath path)

/-! ## What a request should be given to -/

/-- Segment by segment the first path is the beginning of the second. -/
def Covers (p q : JavaString) : Prop := withSlash p <+: withSlash q

/-- The registration of the longest path of a map that covers the path. -/
structure IsBest (map : Routes) (path key : JavaString) (node : SongNode) : Prop where
  registered : map.get key = some node
  covers : Covers key path
  longest : ∀ key', (map.get key').isSome → Covers key' path → key'.length ≤ key.length

/-- No path of the map covers the path. -/
def NoneCovers (map : Routes) (path : JavaString) : Prop :=
  ∀ key, (map.get key).isSome → ¬Covers key path

/-- For a local request the private paths come first.  The parts of the path are the path again, or
with a slash at its end if it is all of the registered path. -/
def IsRoute (c : SongContainer) (contextPath : Option JavaString) (path : JavaString)
    (localRequest : Bool) : Option MatchResult → Prop
  | none => (localRequest → NoneCovers c.privatePathRoutes path) ∧ NoneCovers c.pathRoutes path
  | some m => ∃ map key, IsBest map path key m.songNode ∧
      (localRequest ∧ map = c.privatePathRoutes ∨
        (localRequest → NoneCovers c.privatePathRoutes path) ∧ map = c.pathRoutes) ∧
      m.contextPath = contextPath.getD m.songNode.contextPath ∧
      m.songNode.contextPath ++ m.servletPath ++ m.pathInfo =
        if withSlash key = withSlash path then withSlash path else path

/-- No path of the map sorts before the request and not before the longest one that covers it, and
differs from the request first in a character below the slash. -/
def Settled (map : Routes) (path : JavaString) : Prop :=
  ∀ key, ¬PrefixSearch.Undercuts UInt16.toNat (map.entries.map Prod.fst) slash
    (withSlash path ++ [slash]) key

section Search

variable {map : Routes} {path key : JavaString} {node : SongNode} {s : JavaString}

theorem toNat_injective : Function.Injective UInt16.toNat := fun _ _ => UInt16.toNat_inj.mp

theorem rank_injective : Function.Injective rank := toNat_injective.list_map

theorem isLast_lastKeyBefore (map : Routes) :
    PrefixSearch.IsLast UInt16.toNat (map.entries.map Prod.fst) (lastKeyBefore map) where
  none w h k hk hbefore := by
    rw [lastKeyBefore, Option.map_eq_none_iff, getLast?_eq_none_iff,
      filter_eq_nil_iff] at h
    obtain ⟨e, he, rfl⟩ := mem_map.mp hk
    exact h e he (decide_eq_true (show rank e.1 < rank w from hbefore))
  some w k h := by
    rw [lastKeyBefore, Option.map_eq_some_iff] at h
    obtain ⟨e, he, rfl⟩ := h
    obtain ⟨hmem, hfilter⟩ := mem_filter.mp (mem_of_getLast? he)
    have hlt : rank e.1 < rank w := of_decide_eq_true hfilter
    refine ⟨mem_map_of_mem hmem, hlt, fun k' hk' hbefore => ?_⟩
    obtain ⟨e', he', rfl⟩ := mem_map.mp hk'
    have hmem' : e' ∈ map.entries.filter fun e => rank e.1 < rank w :=
      mem_filter.mpr ⟨he', decide_eq_true (show rank e'.1 < rank w from hbefore)⟩
    obtain ⟨l, hl⟩ := getLast?_eq_some_iff.mp he
    have hsorted := map.sorted.filter fun e => rank e.1 < rank w
    rw [hl] at hmem' hsorted
    rcases mem_append.mp hmem' with hmem' | hmem'
    · exact lt_asymm ((pairwise_append.mp hsorted).2.2 e' hmem' e mem_cons_self)
    · rw [mem_singleton.mp hmem']
      exact lt_irrefl _

theorem endsWithSlash_iff : endsWithSlash s = true ↔ ∃ t, s = t ++ [slash] := by
  rw [endsWithSlash, decide_eq_true_eq, getLast?_eq_some_iff]

theorem withSlash_append (t : JavaString) : withSlash (t ++ [slash]) = t ++ [slash] :=
  if_pos (endsWithSlash_iff.mpr ⟨t, rfl⟩)

theorem realPath_eq (path : JavaString) :
    (if endsWithSlash path then path ++ [slash] else path ++ [slash, slash]) =
      withSlash path ++ [slash] := by
  rw [withSlash]
  split
  · rfl
  · rw [append_assoc]
    rfl

theorem substring_eq {a b : Nat} (hab : a ≤ b) (hb : b ≤ s.length) :
    substring s a b = some ((s.take b).drop a) := by
  rw [substring, if_pos (by omega), Int.toNat_natCast, Int.toNat_natCast]

/-- Every path is the context path of its servlet, a servlet path, and a slash. -/
def WellFormed (map : Routes) : Prop :=
  ∀ e ∈ map.entries, ∃ s, e.1 = e.2.contextPath ++ s ++ [slash]

theorem WellFormed.withSlash_eq (h : WellFormed map) (hkey : map.get key = some node) :
    withSlash key = key := by
  obtain ⟨s, hs⟩ := h _ ((TreeMap.get_eq_some_iff rank_injective).mp hkey)
  rw [show key = _ from hs]
  exact withSlash_append _

theorem WellFormed.covers_iff (h : WellFormed map) (hkey : map.get key = some node) :
    Covers key path ↔ PrefixSearch.ProperPrefix key (withSlash path ++ [slash]) := by
  rw [Covers, h.withSlash_eq hkey]
  constructor
  · intro hp
    exact PrefixSearch.properPrefix_append hp
  · rintro ⟨hp, hne⟩
    exact (prefix_concat_iff.mp hp).resolve_left hne

theorem isSome_get_iff : (map.get key).isSome ↔ key ∈ map.entries.map Prod.fst := by
  rw [Option.isSome_iff_exists, mem_map]
  constructor
  · rintro ⟨node, hnode⟩
    exact ⟨_, (TreeMap.get_eq_some_iff rank_injective).mp hnode, rfl⟩
  · rintro ⟨⟨_, node⟩, hmem, rfl⟩
    exact ⟨node, (TreeMap.get_eq_some_iff rank_injective).mpr hmem⟩

theorem WellFormed.isBest (h : WellFormed map) {o : Option JavaString}
    (ho : PrefixSearch.IsLongest (map.entries.map Prod.fst) (withSlash path ++ [slash]) o) :
    (o = none → NoneCovers map path) ∧
      ∀ key, o = some key → ∃ node, IsBest map path key node := by
  constructor
  · rintro rfl key hkey hcovers
    obtain ⟨node, hnode⟩ := Option.isSome_iff_exists.mp hkey
    exact ho key (isSome_get_iff.mp hkey) ((h.covers_iff hnode).mp hcovers)
  · rintro key rfl
    obtain ⟨hmem, hproper, hlongest⟩ := ho
    obtain ⟨node, hnode⟩ := Option.isSome_iff_exists.mp (isSome_get_iff.mpr hmem)
    refine ⟨node, hnode, (h.covers_iff hnode).mpr hproper, fun key' hkey' hcovers => ?_⟩
    obtain ⟨node', hnode'⟩ := Option.isSome_iff_exists.mp hkey'
    exact (hlongest key' (isSome_get_iff.mp hkey') ((h.covers_iff hnode').mp hcovers)).length_le

theorem WellFormed.route_of_isBest (h : WellFormed map) (hbest : IsBest map path key node) :
    ∃ s p, key = node.contextPath ++ s ++ [slash] ∧
      (if key.length + 1 < (withSlash path ++ [slash]).length then
        substring (withSlash path ++ [slash]) ((key.length : Int) - 1) path.length
      else some [slash]) = some p ∧
      node.contextPath ++ s ++ p =
        if withSlash key = withSlash path then withSlash path else path := by
  obtain ⟨s, hkey⟩ := h _ ((TreeMap.get_eq_some_iff rank_injective).mp hbest.registered)
  dsimp only at hkey
  have hcovers := hbest.covers
  rw [Covers, h.withSlash_eq hbest.registered] at hcovers
  rw [h.withSlash_eq hbest.registered]
  by_cases hwhole : key = withSlash path
  · refine ⟨s, [slash], hkey, if_neg ?_, ?_⟩
    · rw [length_append, length_singleton, ← hwhole]
      exact Nat.lt_irrefl _
    · rw [if_pos hwhole, ← hwhole, hkey]
  · have hlt : key.length < (withSlash path).length := by
      refine lt_of_le_of_ne hcovers.length_le fun heq => hwhole ?_
      exact hcovers.eq_of_length heq
    have hpath : path <+: withSlash path := by
      rw [withSlash]
      split
      · exact prefix_rfl
      · exact prefix_append _ _
    have hle : key.length ≤ path.length := by
      have hlength : (withSlash path).length ≤ path.length + 1 := by
        rw [withSlash]
        split
        · omega
        · rw [length_append, length_singleton]
      omega
    obtain ⟨t, rfl⟩ : key <+: path := prefix_of_prefix_length_le hcovers hpath hle
    have htake : (withSlash (key ++ t) ++ [slash]).take (key ++ t).length = key ++ t :=
      (prefix_iff_eq_take.mp (hpath.trans (prefix_append _ _))).symm
    have hlast : (key.length : Int) - 1 = ((node.contextPath ++ s).length : Nat) := by
      rw [hkey, length_append, length_singleton]
      omega
    refine ⟨s, slash :: t, hkey, ?_, ?_⟩
    · rw [if_pos (by rw [length_append, length_singleton]; omega), hlast,
        substring_eq (by omega) ?_, htake, hkey, append_assoc, append_assoc,
        ← append_assoc, drop_left]
      · rfl
      · exact (hpath.trans (prefix_append _ _)).length_le
    · rw [if_neg hwhole, hkey, append_assoc (node.contextPath ++ s)]
      rfl

theorem settled_of_slash_le (path : JavaString)
    (h : ∀ e ∈ map.entries, ∀ x ∈ e.1, slash.toNat ≤ x.toNat) : Settled map path := by
  rintro key ⟨hmem, -, -, c, x, y, l, r, rfl, -, -, hbelow⟩
  obtain ⟨e, he, hkey⟩ := mem_map.mp hmem
  have hx : x ∈ e.1 := by
    rw [hkey]
    exact mem_append_cons_self
  exact absurd hbelow (h e he x hx).not_gt

/-- The route of a registration. -/
def IsRouteOf (map : Routes) (path : JavaString) : Option Route → Prop
  | none => NoneCovers map path
  | some route => ∃ key s, IsBest map path key route.node ∧
      route.servletPath = route.node.contextPath ++ s ∧
      route.servletPath ++ route.pathInfo =
        if withSlash key = withSlash path then withSlash path else path

theorem findRoute_spec (h : WellFormed map) (hsettled : Settled map path) : ∃ n r,
    (∀ m ≥ n, findRoute m map (withSlash path ++ [slash]) path = .returned r) ∧
      IsRouteOf map path r := by
  have hlast := isLast_lastKeyBefore map
  obtain ⟨n, o, hsearch⟩ := PrefixSearch.exists_search toNat_injective hlast hsettled
  have hfind {m : Nat} (hm : m ≥ n) :
      findBestPrefix m map (withSlash path ++ [slash]) = .returned o :=
    PrefixSearch.search_of_le hsearch hm
  obtain ⟨hnone, hsome⟩ := h.isBest (PrefixSearch.search_spec toNat_injective hlast hsearch)
  cases o with
  | none =>
    refine ⟨n, none, fun m hm => ?_, hnone rfl⟩
    rw [findRoute, hfind hm]
  | some key =>
    obtain ⟨node, hbest⟩ := hsome key rfl
    obtain ⟨s, p, hkey, hinfo, hparts⟩ := h.route_of_isBest hbest
    have hlength : (key.length : Int) - 1 = ((node.contextPath ++ s).length : Nat) := by
      rw [hkey, length_append, length_singleton]
      omega
    have hservlet : substring key 0 ((key.length : Int) - 1) = some (node.contextPath ++ s) := by
      have hsub := substring_eq (s := key) (Nat.zero_le (node.contextPath ++ s).length) (by omega)
      rw [hlength]
      refine hsub.trans ?_
      rw [drop_zero, hkey, take_left]
    refine ⟨n, some ⟨node, node.contextPath ++ s, p⟩, fun m hm => ?_, key, s, hbest, rfl, hparts⟩
    rw [findRoute, hfind hm]
    simp only [hbest.registered, hinfo, hservlet]

theorem matchResult_spec (contextPath : Option JavaString) {route : Route}
    (hservlet : route.servletPath = route.node.contextPath ++ s) :
    matchResult contextPath (.returned (some route)) = .returned (some ⟨route.node,
      contextPath.getD route.node.contextPath, s, route.pathInfo⟩) := by
  have hsub : substring route.servletPath route.node.contextPath.length route.servletPath.length =
      some s := by
    rw [substring_eq (by rw [hservlet, length_append]; omega) (Nat.le_refl _),
      take_length, hservlet, drop_left]
  rw [matchResult, hsub]

end Search

section Runs

variable {c d : SongContainer} {e : PathEvent} {path : JavaString} {map : Routes} {node : SongNode}

/-- Both maps are as they should be. -/
def Inv (c : SongContainer) : Prop := WellFormed c.pathRoutes ∧ WellFormed c.privatePathRoutes

theorem wellFormed_put {key : JavaString} (h : WellFormed map) (hnone : map.get key = none)
    (hkey : ∃ s, key = node.contextPath ++ s ++ [slash]) : WellFormed (map.put key node) := by
  intro e he
  rcases (TreeMap.mem_put_of_get_none hnone).mp he with rfl | he
  · exact hkey
  · exact h e he

theorem wellFormed_remove (key : JavaString) (h : WellFormed map) :
    WellFormed (map.remove key) := fun e he => h e (TreeMap.mem_of_mem_remove he)

theorem exists_servletPath (contextPath : JavaString) (h : goodPath path = true) :
    ∃ s, withSlash (contextPath ++ path) = contextPath ++ s ++ [slash] := by
  rcases path.eq_nil_or_concat with rfl | ⟨s, c, rfl⟩
  · exact absurd h (by decide)
  · rw [concat_eq_append]
    by_cases hc : c = slash
    · exact ⟨s, by rw [hc, ← append_assoc, withSlash_append]⟩
    · refine ⟨s ++ [c], if_neg fun hends => ?_⟩
      obtain ⟨t, ht⟩ := endsWithSlash_iff.mp hends
      rw [← append_assoc] at ht
      exact hc (singleton_inj.mp (append_inj' ht rfl).2)

theorem inv_addPath {fullPath : JavaString} {privatePath : Bool} (hc : Inv c)
    (hpath : ∃ s, fullPath = node.contextPath ++ s ++ [slash])
    (h : c.addPath fullPath privatePath node = some d) : Inv d := by
  rw [SongContainer.addPath] at h
  split at h
  · cases h
  · next hfree =>
    obtain ⟨hpublic, hprivate⟩ := not_or.mp hfree
    rw [Option.not_isSome_iff_eq_none] at hpublic hprivate
    split at h
    · obtain rfl := Option.some.inj h
      exact ⟨hc.1, wellFormed_put hc.2 hprivate hpath⟩
    · obtain rfl := Option.some.inj h
      exact ⟨wellFormed_put hc.1 hpublic hpath, hc.2⟩

theorem inv_removePath (contextPath : JavaString) (removed : Option JavaString) (hc : Inv c) :
    Inv (c.removePath contextPath removed) := by
  cases removed with
  | none => exact hc
  | some path =>
    simp only [SongContainer.removePath]
    split
    · exact ⟨wellFormed_remove _ hc.1, hc.2⟩
    · exact ⟨hc.1, wellFormed_remove _ hc.2⟩

theorem inv_apply (hc : Inv c) (h : e.apply c = some d) : Inv d := by
  cases e with
  | addPath contextPath path privatePath id =>
    rw [PathEvent.apply] at h
    split at h
    · next hgood =>
      obtain rfl := Option.some.inj h
      cases hadd : c.addPath (withSlash (contextPath ++ path)) privatePath ⟨id, contextPath⟩ with
      | none => exact hc
      | some d => exact inv_addPath hc (exists_servletPath contextPath hgood) hadd
    · obtain rfl := Option.some.inj h
      exact hc
  | removePath contextPath path =>
    obtain rfl := Option.some.inj h
    exact inv_removePath contextPath path hc

theorem inv_exec {events : List PathEvent}
    (h : Run.exec PathEvent.apply SongContainer.initial events = some c) : Inv c := by
  have hinitial : Inv SongContainer.initial := ⟨forall_mem_nil _, forall_mem_nil _⟩
  have halong : Run.Along PathEvent.apply (fun _ _ => True) SongContainer.initial events :=
    Run.along_of_forall fun _ _ => trivial
  exact Run.visits_exec (Run.visits_of_along (fun _ _ _ hI _ => inv_apply hI) hinitial halong) h

theorem exists_matchResult (contextPath : Option JavaString) {route : Route}
    (h : IsRouteOf map path (some route)) : ∃ m key,
      matchResult contextPath (.returned (some route)) = .returned (some m) ∧
      IsBest map path key m.songNode ∧
      m.contextPath = contextPath.getD m.songNode.contextPath ∧
      m.songNode.contextPath ++ m.servletPath ++ m.pathInfo =
        if withSlash key = withSlash path then withSlash path else path := by
  obtain ⟨key, s, hbest, hservlet, hparts⟩ := h
  rw [hservlet] at hparts
  exact ⟨_, key, matchResult_spec contextPath hservlet, hbest, rfl, hparts⟩

/-- **The servlet of a request**: the search in a map that no path keeps going ends, without an
exception, and gives the registration of the longest path that covers the path of the request. -/
theorem resolveLocalServlet_spec (events : List PathEvent)
    (hc : Run.exec PathEvent.apply SongContainer.initial events = some c)
    (contextPath : Option JavaString) (localRequest : Bool)
    (hprivate : localRequest → Settled c.privatePathRoutes path)
    (hpublic : (localRequest → NoneCovers c.privatePathRoutes path) → Settled c.pathRoutes path) :
    ∃ n r, (∀ m ≥ n, c.resolveLocalServlet m contextPath path localRequest = .returned r) ∧
      IsRoute c contextPath path localRequest r := by
  obtain ⟨hwf, hwf'⟩ := inv_exec hc
  simp only [SongContainer.resolveLocalServlet, realPath_eq]
  have hsecond (hnone : localRequest → NoneCovers c.privatePathRoutes path) : ∃ n r, (∀ m ≥ n,
      matchResult contextPath (findRoute m c.pathRoutes (withSlash path ++ [slash]) path) =
        .returned r) ∧ IsRoute c contextPath path localRequest r := by
    obtain ⟨n, route, hfind, hroute⟩ := findRoute_spec hwf (hpublic hnone)
    cases route with
    | none => exact ⟨n, none, fun m hm => by rw [hfind m hm]; rfl, hnone, hroute⟩
    | some route =>
      obtain ⟨r, key, hresult, hbest, hcontext, hparts⟩ := exists_matchResult contextPath hroute
      exact ⟨n, some r, fun m hm => by rw [hfind m hm, hresult], c.pathRoutes, key, hbest,
        .inr ⟨hnone, rfl⟩, hcontext, hparts⟩
  cases localRequest with
  | false =>
    obtain ⟨n, r, hfind, hroute⟩ := hsecond fun h => absurd h Bool.false_ne_true
    exact ⟨n, r, fun m hm => hfind m hm, hroute⟩
  | true =>
    obtain ⟨n, route, hfind, hroute⟩ := findRoute_spec hwf' (hprivate rfl)
    cases route with
    | none =>
      obtain ⟨n', r, hfind', hroute'⟩ := hsecond fun _ => hroute
      refine ⟨max n n', r, fun m hm => ?_, hroute'⟩
      rw [if_pos rfl, hfind m (le_trans (le_max_left n n') hm)]
      exact hfind' m (le_trans (le_max_right n n') hm)
    | some route =>
      obtain ⟨r, key, hresult, hbest, hcontext, hparts⟩ := exists_matchResult contextPath hroute
      refine ⟨n, some r, fun m hm => ?_, c.privatePathRoutes, key, hbest, .inl ⟨rfl, rfl⟩,
        hcontext, hparts⟩
      rw [if_pos rfl, hfind m hm]
      exact hresult

/-- Servlets for all paths, for the applications and for one of them, and a private one. -/
def applications : List PathEvent :=
  [.addPath (javaString "/m") (javaString "/") false 1,
    .addPath (javaString "/m") (javaString "/a") false 2,
    .addPath (javaString "/m") (javaString "/a/x") false 3,
    .addPath [] (javaString "/m/a/p") true 4]

theorem resolveLocalServlet_applications : ∃ c,
    Run.exec PathEvent.apply SongContainer.initial applications = some c ∧
      ∃ n r, (∀ m ≥ n, c.resolveLocalServlet m none (javaString "/m/a/x/y") true =
        .returned r) ∧ IsRoute c none (javaString "/m/a/x/y") true r :=
  ⟨_, rfl, resolveLocalServlet_spec applications rfl none true
    (fun _ => settled_of_slash_le _ (forall_mem_singleton.mpr
      (all_iff_forall_prop.mp (by decide))))
    (fun _ => settled_of_slash_le _ (forall_mem_cons.mpr
      ⟨all_iff_forall_prop.mp (by decide), forall_mem_cons.mpr
        ⟨all_iff_forall_prop.mp (by decide), forall_mem_singleton.mpr
          (all_iff_forall_prop.mp (by decide))⟩⟩))⟩

/-- A private path, and a longer one for every request. -/
def privateFirst : List PathEvent :=
  [.addPath [] (javaString "/a") true 1, .addPath [] (javaString "/a/b") false 2]

/-- A local request is given to the shorter path if that is private, and the parts of a path that is
registered itself have a slash more. -/
theorem not_longest_recomposed : ∃ c,
    Run.exec PathEvent.apply SongContainer.initial privateFirst = some c ∧
      c.resolveLocalServlet 1 none (javaString "/a/b") true =
        .returned (some ⟨⟨1, []⟩, [], javaString "/a", javaString "/b"⟩) ∧
      c.pathRoutes.get (javaString "/a/b/") = some ⟨2, []⟩ ∧
      c.resolveLocalServlet 1 none (javaString "/a/b") false =
        .returned (some ⟨⟨2, []⟩, [], javaString "/a/b", javaString "/"⟩) ∧
      javaString "/a/b" ++ javaString "/" ≠ javaString "/a/b" :=
  ⟨_, rfl, by decide +kernel, by decide +kernel, by decide +kernel, by decide⟩

end Runs

end Ong.Song
