import Mathlib.Data.List.Infix
import Ong.Lib.Printf

/-!
# Retargeting paths

`WDiaParseMethod` takes the path of a target apart, such as
`/m2m/applications/APP_020000ffff00240f.1/retargeting2/0x0006.0x02.ope`.  A pointer into the target
is what is left of it, with its terminator; reading behind the terminator and writing outside the
two local buffers have no result.

## Main results

* `parsed_iff`: the targets that are parsed, and what they give
-/

namespace Ong.DrvCommon.Retargeting

open Printf Decimal List Option

def slash : UInt8 := 0x2f
def dot : UInt8 := 0x2e

/-! ## The library -/

/-- The text up to the terminator. -/
def cstring : List UInt8 → Option (List UInt8)
  | [] => none
  | c :: cells => if c = 0 then some [] else (cstring cells).map (c :: ·)

/-- `strstr`; a null pointer is nothing. -/
def strstr (pattern : List UInt8) : List UInt8 → Option (Option (List UInt8))
  | [] => none
  | c :: cells =>
    if pattern.isPrefixOf (c :: cells) then some (some (c :: cells))
    else if c = 0 then some none
    else strstr pattern cells

def strncmp : List UInt8 → List UInt8 → Option Bool
  | _, [] => some true
  | [], _ :: _ => none
  | c :: cells, d :: scl => if c = d then strncmp cells scl else some false

def sscanf (target : List UInt8) (cluster num : Int) : Int × Int :=
  match Printf.scanHex target with
  | none => (cluster, num)
  | some (n, rest) =>
    let cluster := (n : Int).bmod (2 ^ 32)
    if rest.head? ≠ some dot then (cluster, num)
    else
      match Printf.scanHex rest.tail with
      | none => (cluster, num)
      | some (n, _) => (cluster, (n : Int).bmod (2 ^ 32))

/-! ## The function -/

/-- What the pointers of the caller point to. -/
structure Out where
  ident : List UInt8
  app : Int
  type : Int
  level : Int
  cluster : Int
  num : Int

def methodIpu : Int := 1
def methodNet : Int := 2
def methodDev : Int := 3
def methodApp : Int := 4
def methodDrv : Int := 5

def sclIpu : List UInt8 := ascii "IPU_"
def sclNet : List UInt8 := ascii "NW_"
def sclDev : List UInt8 := ascii "DEV_"
def sclApp : List UInt8 := ascii "APP_"

/-- The values that are set first. -/
def Out.reset : Out := ⟨[], 0, 0, -1, -1, -1⟩

/-- `while (*target == '/') target++;` -/
def skipSlashes : List UInt8 → Option (List UInt8)
  | [] => none
  | c :: target => if c = slash then skipSlashes target else some (c :: target)

/-- One of the four comparisons with the name of a container. -/
def tryContainer (scl : List UInt8) (method : Int) (length : Nat) (type : Int)
    (target : List UInt8) : Option (Int × List UInt8) := do
  if ← strncmp target scl then return (method, target.drop length)
  return (type, target)

/-- The four comparisons, each at the place where the one before has left the pointer. -/
def container (type : Int) (target : List UInt8) : Option (Int × List UInt8) := do
  let (type, target) ← tryContainer sclIpu methodIpu sclApp.length type target
  let (type, target) ← tryContainer sclNet methodNet sclNet.length type target
  let (type, target) ← tryContainer sclDev methodDev sclDev.length type target
  tryContainer sclApp methodApp sclApp.length type target

/-- The loop that copies the identifier. -/
def copyIdent : List UInt8 → Option (List UInt8 × List UInt8)
  | [] => none
  | c :: target =>
    if c = 0 ∨ c = slash then some ([], c :: target)
    else (copyIdent target).map fun (ident, left) => (c :: ident, left)

/-- A byte behind those that have been written into a local buffer. -/
def push (buf : List UInt8) (c : UInt8) : Option (List UInt8) :=
  if buf.length < 128 then some (buf ++ [c]) else none

/-- The terminator behind what has been written into a local buffer. -/
def terminate (buf : List UInt8) : Option (List UInt8) :=
  if buf.length < 128 then some buf else none

/-- The loop that copies the name, and the digits at its end. -/
def copyName : List UInt8 → List UInt8 → List UInt8 →
    Option (List UInt8 × List UInt8 × List UInt8)
  | [], _, _ => none
  | c :: target, retarget, asclevel =>
    if c = 0 ∨ c = slash then some (retarget, asclevel, c :: target)
    else do
      let asclevel ← if Decimal.isDigit c then push asclevel c else terminate []
      let retarget ← push retarget c
      copyName target retarget asclevel

/-- `strchr(ident, '.')`: the identifier and the number behind it. -/
def splitApp (out : Out) : Out :=
  match out.ident.dropWhile (· ≠ dot) with
  | [] => out
  | _ :: app => { out with app := atoi app, ident := out.ident.takeWhile (· ≠ dot) }

/-- What follows the name. -/
def parseRest (out : Out) (target : List UInt8) : Option (Int × Out) := do
  let rest ← cstring target
  if rest = [] then return (-7, out)
  if out.type = methodApp ∨ out.type = methodDev then
    let (cluster, num) := sscanf rest out.cluster out.num
    return (0, { out with cluster, num })
  return (0, out)

/-- The name and what follows. -/
def parseName (out : Out) (target : List UInt8) : Option (Int × Out) := do
  let (retarget, asclevel, target) ← copyName target [] []
  let retarget ← terminate retarget
  let asclevel ← terminate asclevel
  if (← target.head?) ≠ slash ∨ retarget = [] then return (-6, out)
  parseRest (if asclevel = [] then out else { out with level := atoi asclevel }) target.tail

/-- The identifier and what follows. -/
def parseIdent (out : Out) (target : List UInt8) : Option (Int × Out) := do
  let target ← skipSlashes target
  if (← target.head?) = 0 then return (-4, out)
  let (ident, target) ← copyIdent target
  let out := { out with ident }
  if (← target.head?) ≠ slash ∨ ident = [] then return (-5, out)
  parseName (splitApp out) target.tail

/-- The container and what follows. -/
def parseContainer (out : Out) (target : List UInt8) : Option (Int × Out) := do
  let target ← skipSlashes target
  if (← target.head?) = 0 then return (-2, out)
  let (type, target) ← container out.type target
  let out := { out with type }
  if type ≤ 0 then return (-3, out)
  parseIdent out target

/-- `WDiaParseMethod` with the value of `w_driverpath`; `target` ends with its terminator, and
`out` is what was there. -/
def wDiaParseMethod (drvpath target : List UInt8) (out : Out) : Option (Int × Out) := do
  if (← target.head?) = 0 then return (-1, out)
  let out := Out.reset
  if (← target.head?) = slash then
    if (← cstring target.tail) = drvpath then return (0, { out with type := methodDrv })
  let pt ← strstr drvpath target
  parseContainer out (pt.elim target (·.drop drvpath.length))

/-! ## What a path is -/

/-- The containers. -/
inductive Container
  | ipu
  | net
  | dev
  | app
  deriving DecidableEq

def Container.scl : Container → List UInt8
  | .ipu => sclIpu
  | .net => sclNet
  | .dev => sclDev
  | .app => sclApp

def Container.method : Container → Int
  | .ipu => methodIpu
  | .net => methodNet
  | .dev => methodDev
  | .app => methodApp

/-- The parts of a path. -/
structure Method where
  container : Container
  ident : List UInt8
  app : Option (List UInt8)
  name : List UInt8
  level : List UInt8
  rest : List UInt8

namespace Method

/-- `ident[.app]` -/
def segment (m : Method) : List UInt8 := m.ident ++ m.app.elim [] (dot :: ·)

/-- The parts can be told apart; the level is all the digits at the end of the name. -/
structure Valid (m : Method) : Prop where
  ident : slash ∉ m.ident ∧ dot ∉ m.ident
  app : ∀ app, m.app = some app → slash ∉ app
  name : slash ∉ m.name ∧ ∀ c, m.name.getLast? = some c → Decimal.isDigit c = false
  level : ∀ d ∈ m.level, Decimal.isDigit d = true
  segment_ne : m.segment ≠ []
  name_ne : m.name ++ m.level ≠ []
  rest_ne : m.rest ≠ []

/-- `<container>/ident[.app]/name<level>/rest`, with any number of slashes in front of the container
and behind it. -/
def Written (m : Method) (path : List UInt8) : Prop :=
  ∃ a b, path = List.replicate a slash ++ (m.container.scl ++ (List.replicate b slash ++
    (m.segment ++ slash :: (m.name ++ m.level ++ slash :: m.rest))))

/-- The values that are written, if they are numbers that an `int` can have: an application and a
level in decimal digits, an operation `0x<cluster>.0x<num>`. -/
structure Values (m : Method) (out : Out) : Prop where
  type : out.type = m.container.method
  ident : out.ident = m.ident
  app_none : m.app = none → out.app = 0
  app_some : ∀ app, m.app = some app → app ≠ [] → (∀ d ∈ app, Decimal.isDigit d = true) →
    Decimal.value app < 2 ^ 31 → out.app = Decimal.value app
  level_nil : m.level = [] → out.level = -1
  level_ne : m.level ≠ [] → Decimal.value m.level < 2 ^ 31 → out.level = Decimal.value m.level
  no_operation : m.container = .ipu ∨ m.container = .net → out.cluster = -1 ∧ out.num = -1
  operation : m.container = .dev ∨ m.container = .app → ∀ cluster num behind,
    m.rest = 0x30 :: 0x78 :: cluster ++ dot :: (0x30 :: 0x78 :: num ++ behind) →
    cluster ≠ [] → (∀ d ∈ cluster, Printf.isHexDigit d = true) →
    num ≠ [] → (∀ d ∈ num, Printf.isHexDigit d = true) → behind.takeWhile Printf.isHexDigit = [] →
    Printf.hexNumber cluster < 2 ^ 31 → Printf.hexNumber num < 2 ^ 31 →
    out.cluster = Printf.hexNumber cluster ∧ out.num = Printf.hexNumber num

end Method

instance decidableForallContainer {p : Container → Prop} [∀ c, Decidable (p c)] :
    Decidable (∀ c, p c) :=
  decidable_of_iff (p .ipu ∧ p .net ∧ p .dev ∧ p .app)
    ⟨fun ⟨hipu, hnet, hdev, happ⟩ c => by cases c <;> assumption,
      fun h => ⟨h _, h _, h _, h _⟩⟩

/-- What follows the first occurrence of the driver path, or the whole target without one. -/
def behind (drvpath target : List UInt8) : List UInt8 :=
  (target.tails.find? drvpath.isPrefixOf).elim target (·.drop drvpath.length)

section Steps

variable {s seg left target rest pattern scl : List UInt8} {c : UInt8} {out : Out}

theorem cstring_append (left : List UInt8) (h : (0 : UInt8) ∉ s) :
    cstring (s ++ 0 :: left) = some s := by
  induction s with
  | nil => rfl
  | cons c s ih =>
    obtain ⟨hc, hs⟩ := not_or.mp (mt mem_cons.mpr h)
    rw [cons_append, cstring, if_neg (Ne.symm hc), ih hs]
    rfl

theorem skipSlashes_append (b : Nat) (hc : c ≠ slash) :
    skipSlashes (replicate b slash ++ c :: left) = some (c :: left) := by
  induction b with
  | zero => exact if_neg hc
  | succ b ih =>
    rw [replicate_succ, cons_append, skipSlashes, if_pos rfl, ih]

theorem strncmp_append (h : (0 : UInt8) ∉ scl) :
    strncmp (s ++ 0 :: left) scl = some (scl.isPrefixOf s) := by
  induction s generalizing scl with
  | nil =>
    cases scl with
    | nil => rfl
    | cons d scl => exact if_neg fun heq => h (mem_cons.mpr (.inl heq))
  | cons c s ih =>
    cases scl with
    | nil => rfl
    | cons d scl =>
      rw [cons_append, strncmp, ih fun hmem => h (mem_cons_of_mem _ hmem),
        isPrefixOf_cons_cons]
      by_cases heq : c = d
      · rw [if_pos heq, heq, BEq.rfl, Bool.true_and]
      · rw [if_neg heq, beq_false_of_ne (Ne.symm heq), Bool.false_and]

theorem copyIdent_append (hzero : (0 : UInt8) ∉ seg) (hslash : slash ∉ seg)
    (hc : c = 0 ∨ c = slash) : copyIdent (seg ++ c :: left) = some (seg, c :: left) := by
  induction seg with
  | nil => exact if_pos hc
  | cons d seg ih =>
    obtain ⟨hd, hzero⟩ := not_or.mp (mt mem_cons.mpr hzero)
    obtain ⟨hd', hslash⟩ := not_or.mp (mt mem_cons.mpr hslash)
    rw [cons_append, copyIdent, if_neg (not_or.mpr ⟨Ne.symm hd, Ne.symm hd'⟩),
      ih hzero hslash]
    rfl

/-- The digits at the end of what has been read. -/
def trailing (asclevel seg : List UInt8) : List UInt8 :=
  seg.foldl (fun a c => if Decimal.isDigit c then a ++ [c] else []) asclevel

theorem copyName_append (left retarget asclevel : List UInt8) (hzero : (0 : UInt8) ∉ seg)
    (hslash : slash ∉ seg) (hc : c = 0 ∨ c = slash) (hle : asclevel.length ≤ retarget.length)
    (hshort : retarget.length + seg.length < 128) :
    copyName (seg ++ c :: left) retarget asclevel =
        some (retarget ++ seg, trailing asclevel seg, c :: left) ∧
      (trailing asclevel seg).length < 128 := by
  induction seg generalizing retarget asclevel with
  | nil =>
    refine ⟨(if_pos hc).trans ?_, by show asclevel.length < 128; omega⟩
    rw [append_nil]
    rfl
  | cons d seg ih =>
    obtain ⟨hd, hzero⟩ := not_or.mp (mt mem_cons.mpr hzero)
    obtain ⟨hd', hslash⟩ := not_or.mp (mt mem_cons.mpr hslash)
    rw [length_cons] at hshort
    have hpush : push retarget d = some (retarget ++ [d]) := if_pos (by omega)
    have hlength : (retarget ++ [d]).length = retarget.length + 1 := length_append
    rw [cons_append, copyName, if_neg (not_or.mpr ⟨Ne.symm hd, Ne.symm hd'⟩), hpush,
      trailing, foldl_cons, ← trailing]
    by_cases hdigit : isDigit d = true
    · have hlevel : push asclevel d = some (asclevel ++ [d]) := if_pos (by omega)
      have hlength' : (asclevel ++ [d]).length = asclevel.length + 1 := length_append
      obtain ⟨hcopy, hlt⟩ := ih (retarget ++ [d]) (asclevel ++ [d]) hzero hslash (by omega)
        (by omega)
      simp only [hdigit, if_true, hlevel, bind_eq_bind, bind_some]
      rw [hcopy, append_assoc, singleton_append]
      exact ⟨rfl, hlt⟩
    · obtain ⟨hcopy, hlt⟩ := ih (retarget ++ [d]) [] hzero hslash (Nat.zero_le _) (by omega)
      have hreset : terminate [] = some [] := rfl
      simp only [hdigit, hreset, bind_eq_bind, bind_some]
      rw [hcopy, append_assoc, singleton_append]
      exact ⟨rfl, hlt⟩

theorem trailing_digits {asclevel : List UInt8} (h : ∀ d ∈ seg, isDigit d = true) :
    trailing asclevel seg = asclevel ++ seg := by
  induction seg generalizing asclevel with
  | nil => exact (append_nil _).symm
  | cons d seg ih =>
    obtain ⟨hd, hseg⟩ := forall_mem_cons.mp h
    rw [trailing, foldl_cons, if_pos hd, ← trailing, ih hseg, append_assoc,
      singleton_append]

theorem trailing_append {name level : List UInt8}
    (hname : ∀ c, name.getLast? = some c → isDigit c = false)
    (hlevel : ∀ d ∈ level, isDigit d = true) : trailing [] (name ++ level) = level := by
  have hreset : trailing [] name = [] := by
    rcases name.eq_nil_or_concat with rfl | ⟨name, c, rfl⟩
    · rfl
    · rw [concat_eq_append, trailing, foldl_append, foldl_cons, foldl_nil,
        if_neg]
      rw [hname c (by rw [concat_eq_append, getLast?_concat])]
      exact Bool.false_ne_true
  rw [trailing, foldl_append]
  show trailing (trailing [] name) level = level
  rw [hreset, trailing_digits hlevel, nil_append]

theorem exists_level (seg : List UInt8) : ∃ name level, seg = name ++ level ∧
    (∀ c, name.getLast? = some c → isDigit c = false) ∧
    ∀ d ∈ level, isDigit d = true := by
  induction seg using reverseRecOn with
  | nil => exact ⟨[], [], rfl, fun _ h => (some_ne_none _ h.symm).elim,
      forall_mem_nil _⟩
  | append_singleton seg c ih =>
    by_cases hc : isDigit c = true
    · obtain ⟨name, level, rfl, hname, hlevel⟩ := ih
      refine ⟨name, level ++ [c], append_assoc _ _ _, hname, fun d hd => ?_⟩
      rcases mem_append.mp hd with hd | hd
      · exact hlevel d hd
      · rwa [mem_singleton.mp hd]
    · refine ⟨seg ++ [c], [], (append_nil _).symm, fun d hd => ?_, forall_mem_nil _⟩
      rw [getLast?_concat] at hd
      rw [← Option.some.inj hd]
      exact Bool.eq_false_iff.mpr hc

theorem exists_segment (s : List UInt8) : ∃ seg, slash ∉ seg ∧
    (s = seg ∨ ∃ left, s = seg ++ slash :: left) := by
  induction s with
  | nil => exact ⟨[], not_mem_nil, .inl rfl⟩
  | cons c s ih =>
    by_cases hc : c = slash
    · exact ⟨[], not_mem_nil, .inr ⟨s, by rw [hc]; rfl⟩⟩
    · obtain ⟨seg, hseg, hs⟩ := ih
      refine ⟨c :: seg, fun hmem => ?_, ?_⟩
      · rcases mem_cons.mp hmem with heq | hmem
        · exact hc heq.symm
        · exact hseg hmem
      · rcases hs with rfl | ⟨left, rfl⟩
        · exact .inl rfl
        · exact .inr ⟨left, rfl⟩

theorem exists_slashes (s : List UInt8) : ∃ b left, s = replicate b slash ++ left ∧
    left.head? ≠ some slash := by
  induction s with
  | nil => exact ⟨0, [], rfl, some_ne_none _ ∘ Eq.symm⟩
  | cons c s ih =>
    by_cases hc : c = slash
    · obtain ⟨b, left, rfl, hleft⟩ := ih
      exact ⟨b + 1, left, by rw [hc]; rfl, hleft⟩
    · exact ⟨0, c :: s, rfl, fun h => hc (Option.some.inj h)⟩

theorem skipSlashes_terminated (b : Nat) (h : s.head? ≠ some slash) :
    skipSlashes (replicate b slash ++ s ++ [0]) = some (s ++ [0]) := by
  cases s with
  | nil =>
    rw [append_nil]
    exact skipSlashes_append b (by decide)
  | cons c s =>
    rw [append_assoc]
    exact skipSlashes_append b fun hc => h (congrArg some hc)

end Steps

section Parts

variable {s seg left rest : List UInt8} {out : Out} {c : Container} {scl : List UInt8}
  {method type : Int}

theorem parseRest_nil : parseRest out [0] = some (-7, out) := rfl

/-- The operation of a device or an application. -/
def withOperation (out : Out) (rest : List UInt8) : Out :=
  if out.type = methodApp ∨ out.type = methodDev then
    { out with
      cluster := (sscanf rest out.cluster out.num).1
      num := (sscanf rest out.cluster out.num).2 }
  else out

theorem parseRest_text (hzero : (0 : UInt8) ∉ rest) (hne : rest ≠ []) :
    parseRest out (rest ++ [0]) = some (0, withOperation out rest) := by
  rw [parseRest, cstring_append [] hzero]
  simp only [bind_eq_bind, bind_some, hne, if_false, withOperation]
  split <;> rfl

def withLevel (out : Out) (asclevel : List UInt8) : Out :=
  if asclevel = [] then out else { out with level := atoi asclevel }

theorem parseName_short (hzero : (0 : UInt8) ∉ seg) (hslash : slash ∉ seg)
    (hlt : seg.length < 128) : parseName out (seg ++ [0]) = some (-6, out) := by
  obtain ⟨hcopy, hlevel⟩ := copyName_append [] [] [] hzero hslash (.inl rfl) (Nat.le_refl _)
    (by rw [length_nil]; omega)
  rw [parseName, hcopy]
  simp only [bind_eq_bind, bind_some, nil_append, terminate, hlt, hlevel,
    if_true, head?_cons, show (0 : UInt8) ≠ slash by decide, true_or, ne_eq,
    not_false_eq_true]
  rfl

theorem parseName_segment (hzero : (0 : UInt8) ∉ seg) (hslash : slash ∉ seg)
    (hlt : seg.length < 128) : parseName out (seg ++ slash :: left) =
      if seg = [] then some (-6, out) else parseRest (withLevel out (trailing [] seg)) left := by
  obtain ⟨hcopy, hlevel⟩ := copyName_append left [] [] hzero hslash (.inr rfl) (Nat.le_refl _)
    (by rw [length_nil]; omega)
  rw [parseName, hcopy]
  simp only [bind_eq_bind, bind_some, nil_append, terminate, hlt, hlevel,
    if_true, head?_cons, false_or, ne_eq, not_true_eq_false, tail_cons]
  rfl

theorem parseIdent_short (b : Nat) (hzero : (0 : UInt8) ∉ seg) (hslash : slash ∉ seg) :
    ∃ ret < 0, ∃ out',
      parseIdent out (replicate b slash ++ seg ++ [0]) = some (ret, out') := by
  have hskip := skipSlashes_terminated b (s := seg)
    fun hhead => hslash (mem_of_mem_head? hhead)
  rw [parseIdent, hskip]
  cases seg with
  | nil => exact ⟨-4, by decide, out, rfl⟩
  | cons d seg =>
    have hd : d ≠ 0 := fun heq => hzero (mem_cons.mpr (.inl heq.symm))
    refine ⟨-5, by decide, { out with ident := d :: seg }, ?_⟩
    simp only [bind_eq_bind, bind_some, cons_append, head?_cons, hd,
      if_false]
    rw [← cons_append, copyIdent_append hzero hslash (.inl rfl)]
    rfl

theorem parseIdent_segment (b : Nat) (hzero : (0 : UInt8) ∉ seg) (hslash : slash ∉ seg)
    (hne : seg ≠ []) : parseIdent out (replicate b slash ++ (seg ++ slash :: left)) =
      parseName (splitApp { out with ident := seg }) left := by
  obtain ⟨d, seg, rfl⟩ := exists_cons_of_ne_nil hne
  have hd : d ≠ 0 := fun heq => hzero (mem_cons.mpr (.inl heq.symm))
  have hd' : d ≠ slash := fun heq => hslash (mem_cons.mpr (.inl heq.symm))
  rw [parseIdent, cons_append, skipSlashes_append b hd']
  simp only [bind_eq_bind, bind_some, head?_cons, hd, if_false]
  rw [← cons_append, copyIdent_append hzero hslash (.inr rfl)]
  rfl

theorem tryContainer_miss {n : Nat} (hzero : (0 : UInt8) ∉ scl) (h : scl.isPrefixOf s = false) :
    tryContainer scl method n type (s ++ [0]) = some (type, s ++ [0]) := by
  rw [tryContainer, strncmp_append hzero, h]
  rfl

theorem tryContainer_hit {n : Nat} (hzero : (0 : UInt8) ∉ scl) (hn : n = scl.length) :
    tryContainer scl method n type (scl ++ left ++ [0]) = some (method, left ++ [0]) := by
  rw [tryContainer, strncmp_append hzero, isPrefixOf_iff_prefix.mpr (prefix_append _ _),
    hn]
  simp only [bind_eq_bind, bind_some, if_true, append_assoc, drop_left]
  rfl

theorem not_isPrefixOf_scl {c c' : Container} (h : c ≠ c') (s : List UInt8) :
    c'.scl.isPrefixOf (c.scl ++ s) = false := by
  cases c <;> cases c' <;> first | exact absurd rfl h | rfl

/-- No container name with a greater number follows the one of the container. -/
def Unchained (c : Container) (left : List UInt8) : Prop :=
  ∀ c' : Container, c.method < c'.method → ¬c'.scl <+: left

instance decidableUnchained (c : Container) (left : List UInt8) : Decidable (Unchained c left) :=
  inferInstanceAs (Decidable (∀ _, _))

theorem container_spec (h : Unchained c left) (type : Int) :
    container type (c.scl ++ left ++ [0]) = some (c.method, left ++ [0]) := by
  have hlater (c' : Container) (hc' : c.method < c'.method) : c'.scl.isPrefixOf left = false :=
    Bool.eq_false_iff.mpr fun hprefix => h c' hc' (List.isPrefixOf_iff_prefix.mp hprefix)
  have hearlier (c' : Container) (hne : c ≠ c') : c'.scl.isPrefixOf (c.scl ++ left) = false :=
    not_isPrefixOf_scl hne left
  rw [container]
  cases c with
  | ipu =>
    have hnet : sclNet.isPrefixOf left = false := hlater .net (by decide)
    have hdev : sclDev.isPrefixOf left = false := hlater .dev (by decide)
    have happ : sclApp.isPrefixOf left = false := hlater .app (by decide)
    rw [show Container.ipu.scl = sclIpu from rfl, tryContainer_hit (by decide) (by decide)]
    simp only [bind_eq_bind, bind_some]
    rw [tryContainer_miss (by decide) hnet, bind_some, tryContainer_miss (by decide) hdev,
      bind_some, tryContainer_miss (by decide) happ]
    rfl
  | net =>
    have hipu : sclIpu.isPrefixOf (sclNet ++ left) = false := hearlier .ipu (by decide)
    have hdev : sclDev.isPrefixOf left = false := hlater .dev (by decide)
    have happ : sclApp.isPrefixOf left = false := hlater .app (by decide)
    rw [show Container.net.scl = sclNet from rfl, tryContainer_miss (by decide) hipu]
    simp only [bind_eq_bind, bind_some]
    rw [tryContainer_hit (by decide) rfl, bind_some, tryContainer_miss (by decide) hdev,
      bind_some, tryContainer_miss (by decide) happ]
    rfl
  | dev =>
    have hipu : sclIpu.isPrefixOf (sclDev ++ left) = false := hearlier .ipu (by decide)
    have hnet : sclNet.isPrefixOf (sclDev ++ left) = false := hearlier .net (by decide)
    have happ : sclApp.isPrefixOf left = false := hlater .app (by decide)
    rw [show Container.dev.scl = sclDev from rfl, tryContainer_miss (by decide) hipu]
    simp only [bind_eq_bind, bind_some]
    rw [tryContainer_miss (by decide) hnet, bind_some, tryContainer_hit (by decide) rfl,
      bind_some, tryContainer_miss (by decide) happ]
    rfl
  | app =>
    have hipu : sclIpu.isPrefixOf (sclApp ++ left) = false := hearlier .ipu (by decide)
    have hnet : sclNet.isPrefixOf (sclApp ++ left) = false := hearlier .net (by decide)
    have hdev : sclDev.isPrefixOf (sclApp ++ left) = false := hearlier .dev (by decide)
    rw [show Container.app.scl = sclApp from rfl, tryContainer_miss (by decide) hipu]
    simp only [bind_eq_bind, bind_some]
    rw [tryContainer_miss (by decide) hnet, bind_some, tryContainer_miss (by decide) hdev,
      bind_some, tryContainer_hit (by decide) rfl]
    rfl

theorem container_none (h : ∀ c : Container, ¬c.scl <+: s) (type : Int) :
    container type (s ++ [0]) = some (type, s ++ [0]) := by
  have hnone (c : Container) : c.scl.isPrefixOf s = false :=
    Bool.eq_false_iff.mpr fun hprefix => h c (List.isPrefixOf_iff_prefix.mp hprefix)
  have hipu : sclIpu.isPrefixOf s = false := hnone .ipu
  have hnet : sclNet.isPrefixOf s = false := hnone .net
  have hdev : sclDev.isPrefixOf s = false := hnone .dev
  have happ : sclApp.isPrefixOf s = false := hnone .app
  rw [container, tryContainer_miss (by decide) hipu]
  simp only [bind_eq_bind, bind_some]
  rw [tryContainer_miss (by decide) hnet, bind_some, tryContainer_miss (by decide) hdev,
    bind_some, tryContainer_miss (by decide) happ]

theorem head?_scl (c : Container) (s : List UInt8) :
    ∃ d left, c.scl ++ s = d :: left ∧ d ≠ slash ∧ d ≠ 0 := by
  cases c <;> exact ⟨_, _, rfl, by decide, by decide⟩

theorem method_pos (c : Container) : 0 < c.method := by
  cases c <;> decide

theorem parseContainer_scl (a : Nat) (h : Unchained c left) :
    parseContainer out (replicate a slash ++ (c.scl ++ left) ++ [0]) =
      parseIdent { out with type := c.method } (left ++ [0]) := by
  obtain ⟨d, left', hscl, hslash, hzero⟩ := head?_scl c left
  have hhead : (c.scl ++ left).head? ≠ some slash := by
    rw [hscl]
    exact fun heq => hslash (Option.some.inj heq)
  have hfirst : (c.scl ++ left ++ [0]).head? = some d := by
    rw [hscl]
    rfl
  rw [parseContainer, skipSlashes_terminated a hhead]
  simp only [bind_eq_bind, bind_some]
  rw [hfirst, bind_some, if_neg hzero, container_spec h, bind_some,
    if_neg (Int.not_le.mpr (method_pos c))]

theorem parseContainer_none (a : Nat) (hs : s.head? ≠ some slash) (htype : out.type ≤ 0)
    (h : ∀ c : Container, ¬c.scl <+: s) :
    ∃ ret < 0, ∃ out', parseContainer out (replicate a slash ++ s ++ [0]) =
      some (ret, out') := by
  rw [parseContainer, skipSlashes_terminated a hs]
  simp only [bind_eq_bind, bind_some]
  cases hhead : (s ++ [0]).head? with
  | none => cases s <;> cases hhead
  | some d =>
    rw [bind_some]
    by_cases hd : d = 0
    · exact ⟨-2, by decide, out, if_pos hd⟩
    · rw [if_neg hd, container_none h, bind_some, if_pos htype]
      exact ⟨-3, by decide, out, rfl⟩

end Parts

section Paths

variable {path drvpath target : List UInt8} {out : Out} {m : Method}

/-- The segment behind the identifier. -/
def nameOf (left : List UInt8) : List UInt8 :=
  ((left.dropWhile (· = slash)).dropWhile (· ≠ slash)).tail.takeWhile (· ≠ slash)

/-- One container name only, and a name that fits into the buffers with its terminator. -/
def Regular (path : List UInt8) : Prop :=
  ∀ c : Container, c.scl <+: path.dropWhile (· = slash) →
    Unchained c ((path.dropWhile (· = slash)).drop c.scl.length) ∧
      (nameOf ((path.dropWhile (· = slash)).drop c.scl.length)).length < 128

instance decidableRegular (path : List UInt8) : Decidable (Regular path) :=
  inferInstanceAs (Decidable (∀ _, _))

theorem dropWhile_slashes (b : Nat) {s : List UInt8} (h : s.head? ≠ some slash) :
    (replicate b slash ++ s).dropWhile (· = slash) = s := by
  rw [dropWhile_append_of_pos fun c hc => decide_eq_true (eq_of_mem_replicate hc)]
  cases s with
  | nil => rfl
  | cons c s => exact dropWhile_cons_of_neg (by simpa using fun hc => h (congrArg some hc))

theorem regular_spec (h : Regular path) (a : Nat) {c : Container} {left : List UInt8}
    (hpath : path = replicate a slash ++ (c.scl ++ left)) : Unchained c left ∧
      ∀ b seg behind, seg ≠ [] → slash ∉ seg →
        left = replicate b slash ++ (seg ++ slash :: behind) →
          (behind.takeWhile (· ≠ slash)).length < 128 := by
  obtain ⟨d, left', hscl, hslash, -⟩ := head?_scl c left
  have hhead : (c.scl ++ left).head? ≠ some slash := by
    rw [hscl]
    exact fun heq => hslash (Option.some.inj heq)
  have hdrop : path.dropWhile (· = slash) = c.scl ++ left := by
    rw [hpath, dropWhile_slashes a hhead]
  obtain ⟨hchain, hshort⟩ := h c (by rw [hdrop]; exact prefix_append _ _)
  rw [hdrop, drop_left] at hchain hshort
  refine ⟨hchain, fun b seg behind hne hseg hleft => ?_⟩
  have hseg' : (seg ++ slash :: behind).head? ≠ some slash := by
    obtain ⟨d, seg, rfl⟩ := exists_cons_of_ne_nil hne
    exact fun heq => hseg (mem_cons.mpr (.inl (Option.some.inj heq).symm))
  have hall : ∀ d ∈ seg, decide (d ≠ slash) = true := fun d hd =>
    decide_eq_true fun heq => hseg (heq ▸ hd)
  rwa [nameOf, hleft, dropWhile_slashes b hseg', dropWhile_append_of_pos hall,
    dropWhile_cons_of_neg (by simp), tail_cons] at hshort

/-- The container and the identifier with the application. -/
def withIdent (out : Out) (m : Method) : Out :=
  { out with type := m.container.method, ident := m.ident, app := m.app.elim out.app atoi }

/-- What a path with these parts gives. -/
def result (out : Out) (m : Method) : Out :=
  withOperation (withLevel (withIdent out m) m.level) m.rest

theorem splitApp_segment (hm : m.Valid) : splitApp { out with ident := m.segment } =
    { out with ident := m.ident, app := m.app.elim out.app atoi } := by
  have hident : ∀ c ∈ m.ident, decide (c ≠ dot) = true := fun c hc =>
    decide_eq_true fun heq => hm.ident.2 (heq ▸ hc)
  rw [splitApp, Method.segment]
  cases m.app with
  | none =>
    have hdrop : m.ident.dropWhile (· ≠ dot) = [] := dropWhile_eq_nil_iff.mpr hident
    simp only [elim_none, append_nil, hdrop]
  | some app =>
    have htake : (m.ident ++ dot :: app).takeWhile (· ≠ dot) = m.ident := by
      rw [takeWhile_append_of_pos hident, takeWhile_cons_of_neg (by simp),
        append_nil]
    have hdrop : (m.ident ++ dot :: app).dropWhile (· ≠ dot) = dot :: app := by
      rw [dropWhile_append_of_pos hident, dropWhile_cons_of_neg (by simp)]
    simp only [elim_some, hdrop, htake]

theorem slash_notMem_segment (hm : m.Valid) : slash ∉ m.segment := by
  rw [Method.segment, mem_append, not_or]
  refine ⟨hm.ident.1, ?_⟩
  cases happ : m.app with
  | none => exact not_mem_nil
  | some app =>
    rw [elim_some, mem_cons, not_or]
    exact ⟨by decide, hm.app app happ⟩

theorem slash_notMem_name (hm : m.Valid) : slash ∉ m.name ++ m.level := by
  rw [mem_append, not_or]
  exact ⟨hm.name.1, fun hmem => absurd (hm.level _ hmem) (by decide)⟩

theorem parseContainer_written (out : Out) (hzero : (0 : UInt8) ∉ path) (hregular : Regular path)
    (hm : m.Valid) (hwritten : m.Written path) :
    parseContainer out (path ++ [0]) = some (0, result out m) := by
  obtain ⟨a, b, rfl⟩ := hwritten
  obtain ⟨hchain, hshort⟩ := regular_spec hregular a rfl
  have hshort := hshort b _ _ hm.segment_ne (slash_notMem_segment hm) rfl
  have hname : ∀ c ∈ m.name ++ m.level, decide (c ≠ slash) = true := fun c hc =>
    decide_eq_true fun heq => slash_notMem_name hm (heq ▸ hc)
  rw [takeWhile_append_of_pos hname, takeWhile_cons_of_neg (by simp),
    append_nil] at hshort
  simp only [mem_append, mem_cons, not_or] at hzero
  obtain ⟨-, -, -, hsegment, -, ⟨hzname, hzlevel⟩, -, hrest⟩ := hzero
  have hzname : (0 : UInt8) ∉ m.name ++ m.level := by
    rw [mem_append, not_or]
    exact ⟨hzname, hzlevel⟩
  rw [parseContainer_scl a hchain]
  simp only [append_assoc, cons_append]
  rw [parseIdent_segment b hsegment (slash_notMem_segment hm) hm.segment_ne, splitApp_segment hm,
    ← append_assoc,
    parseName_segment hzname (slash_notMem_name hm) hshort, if_neg hm.name_ne,
    trailing_append hm.name.2 hm.level, parseRest_text hrest hm.rest_ne]
  rfl

theorem exists_app {seg : List UInt8} (h : slash ∉ seg) : ∃ ident, ∃ app : Option (List UInt8),
    seg = ident ++ app.elim [] (dot :: ·) ∧ (slash ∉ ident ∧ dot ∉ ident) ∧
      ∀ a, app = some a → slash ∉ a := by
  induction seg with
  | nil => exact ⟨[], none, rfl, ⟨not_mem_nil, not_mem_nil⟩,
      fun _ h => (some_ne_none _ h.symm).elim⟩
  | cons c seg ih =>
    obtain ⟨hc, hseg⟩ := not_or.mp (mt mem_cons.mpr h)
    by_cases hdot : c = dot
    · exact ⟨[], some seg, by rw [hdot]; rfl, ⟨not_mem_nil, not_mem_nil⟩,
        fun a ha => Option.some.inj ha ▸ hseg⟩
    · obtain ⟨ident, app, rfl, ⟨hslash, hdots⟩, happ⟩ := ih hseg
      refine ⟨c :: ident, app, rfl, ⟨fun hmem => ?_, fun hmem => ?_⟩, happ⟩
      · exact (mem_cons.mp hmem).elim hc hslash
      · exact (mem_cons.mp hmem).elim (fun heq => hdot heq.symm) hdots

theorem parseContainer_cases (out : Out) (hzero : (0 : UInt8) ∉ path) (hregular : Regular path)
    (htype : out.type ≤ 0) : (∃ m : Method, m.Valid ∧ m.Written path) ∨
      ∃ ret < 0, ∃ out', parseContainer out (path ++ [0]) = some (ret, out') := by
  obtain ⟨a, s, rfl, hs⟩ := exists_slashes path
  by_cases hscl : ∃ c : Container, c.scl <+: s
  swap
  · exact .inr (parseContainer_none a hs htype fun c hc => hscl ⟨c, hc⟩)
  obtain ⟨c, left, rfl⟩ := hscl
  obtain ⟨hchain, hshort⟩ := regular_spec hregular a rfl
  rw [mem_append, mem_append, not_or, not_or] at hzero
  obtain ⟨-, -, hzero⟩ := hzero
  rw [parseContainer_scl a hchain]
  obtain ⟨b, u, rfl, hu⟩ := exists_slashes left
  obtain ⟨seg, hseg, rfl | ⟨t, rfl⟩⟩ := exists_segment u
  · rw [mem_append, not_or] at hzero
    exact .inr (parseIdent_short b hzero.2 hseg)
  have hne : seg ≠ [] := by
    rintro rfl
    exact hu rfl
  have hshort := hshort b seg t hne hseg rfl
  simp only [mem_append, mem_cons, not_or] at hzero
  obtain ⟨-, hzseg, -, hzero⟩ := hzero
  rw [append_assoc, append_assoc, cons_append, parseIdent_segment b hzseg hseg hne]
  obtain ⟨name', hname', rfl | ⟨rest, rfl⟩⟩ := exists_segment t
  · have hall : ∀ d ∈ t, decide (d ≠ slash) = true := fun d hd =>
      decide_eq_true fun heq => hname' (heq ▸ hd)
    rw [takeWhile_eq_self_iff.mpr hall] at hshort
    exact .inr ⟨-6, by decide, _, parseName_short hzero hname' hshort⟩
  have hall : ∀ d ∈ name', decide (d ≠ slash) = true := fun d hd =>
    decide_eq_true fun heq => hname' (heq ▸ hd)
  rw [takeWhile_append_of_pos hall, takeWhile_cons_of_neg (by simp),
    append_nil] at hshort
  simp only [mem_append, mem_cons, not_or] at hzero
  rw [append_assoc, cons_append, parseName_segment hzero.1 hname' hshort]
  by_cases hempty : name' = []
  · rw [if_pos hempty]
    exact .inr ⟨-6, by decide, _, rfl⟩
  rw [if_neg hempty]
  by_cases hrest : rest = []
  · rw [hrest]
    exact .inr ⟨-7, by decide, _, parseRest_nil⟩
  obtain ⟨ident, app, rfl, hident, happ⟩ := exists_app hseg
  obtain ⟨name, level, rfl, hname, hlevel⟩ := exists_level name'
  rw [mem_append, not_or] at hname'
  exact .inl ⟨⟨c, ident, app, name, level, rest⟩,
    ⟨hident, happ, ⟨hname'.1, hname⟩, hlevel, hne, hempty, hrest⟩, a, b, rfl⟩

theorem sscanf_operation {cluster num behind : List UInt8}
    (hcdigits : ∀ d ∈ cluster, isHexDigit d = true)
    (hndigits : ∀ d ∈ num, isHexDigit d = true)
    (hbehind : behind.takeWhile isHexDigit = [])
    (hclt : hexNumber cluster < 2 ^ 31) (hnlt : hexNumber num < 2 ^ 31)
    (i j : Int) :
    sscanf (0x30 :: 0x78 :: cluster ++ dot :: (0x30 :: 0x78 :: num ++ behind)) i j =
      ((hexNumber cluster : Int), (hexNumber num : Int)) := by
  have hint {n : Nat} (hn : n < 2 ^ 31) : (n : Int).bmod (2 ^ 32) = n := by
    rw [Int.bmod_def]
    split <;> omega
  have hdot : (dot :: (0x30 :: 0x78 :: num ++ behind)).takeWhile isHexDigit = [] :=
    takeWhile_cons_of_neg (by decide)
  simp only [sscanf, scanHex_digits_append hcdigits hdot (by omega),
    head?_cons, ne_eq, not_true_eq_false, if_false, tail_cons,
    scanHex_digits_append hndigits hbehind (by omega), hint hclt, hint hnlt]

theorem withOperation_fields (out : Out) (rest : List UInt8) :
    (withOperation out rest).type = out.type ∧ (withOperation out rest).ident = out.ident ∧
      (withOperation out rest).app = out.app ∧ (withOperation out rest).level = out.level := by
  rw [withOperation]
  split <;> exact ⟨rfl, rfl, rfl, rfl⟩

theorem withLevel_fields (out : Out) (asclevel : List UInt8) :
    (withLevel out asclevel).type = out.type ∧ (withLevel out asclevel).ident = out.ident ∧
      (withLevel out asclevel).app = out.app ∧ (withLevel out asclevel).cluster = out.cluster ∧
      (withLevel out asclevel).num = out.num := by
  rw [withLevel]
  split <;> exact ⟨rfl, rfl, rfl, rfl, rfl⟩

theorem values_result (hm : m.Valid) : m.Values (result Out.reset m) := by
  obtain ⟨htype, hident, happ, hlevel⟩ := withOperation_fields
    (withLevel (withIdent Out.reset m) m.level) m.rest
  obtain ⟨htype', hident', happ', hcluster', hnum'⟩ := withLevel_fields
    (withIdent Out.reset m) m.level
  have hmethod : (withLevel (withIdent Out.reset m) m.level).type = m.container.method := htype'
  refine ⟨htype.trans htype', hident.trans hident', fun hnone => ?_,
    fun app hsome hne hdigits hlt => ?_, fun hnil => ?_, fun hne hlt => ?_,
    fun hcontainer => ?_, ?_⟩
  · refine (happ.trans happ').trans ?_
    rw [withIdent, hnone]
    rfl
  · refine (happ.trans happ').trans ?_
    rw [withIdent, hsome]
    exact atoi_digits hne hdigits (value_nonneg hdigits) hlt
  · refine hlevel.trans ?_
    rw [withLevel, if_pos hnil]
    rfl
  · refine hlevel.trans ?_
    rw [withLevel, if_neg hne]
    exact atoi_digits hne hm.level (value_nonneg hm.level) hlt
  · rw [result, withOperation, if_neg]
    · exact ⟨hcluster', hnum'⟩
    · rw [hmethod]
      rcases hcontainer with heq | heq <;> rw [heq] <;> decide
  · intro hcontainer cluster num behind hrest _ hcdigits _ hndigits hbehind hclt hnlt
    rw [result, withOperation, if_pos, hrest]
    · rw [sscanf_operation hcdigits hndigits hbehind hclt hnlt]
      exact ⟨rfl, rfl⟩
    · rw [hmethod]
      rcases hcontainer with heq | heq <;> rw [heq] <;> decide

end Paths

section Targets

variable {pattern s drvpath target : List UInt8} {out : Out}

theorem isPrefixOf_terminated (h : (0 : UInt8) ∉ pattern) :
    pattern.isPrefixOf (s ++ [0]) = pattern.isPrefixOf s := by
  induction s generalizing pattern with
  | nil =>
    cases pattern with
    | nil => rfl
    | cons d pattern =>
      have hd : d ≠ 0 := fun heq => h (mem_cons.mpr (.inl heq.symm))
      rw [nil_append, isPrefixOf_cons_cons, beq_false_of_ne hd, Bool.false_and]
      rfl
  | cons c s ih =>
    cases pattern with
    | nil => rfl
    | cons d pattern =>
      rw [cons_append, isPrefixOf_cons_cons, isPrefixOf_cons_cons,
        ih fun hmem => h (mem_cons_of_mem _ hmem)]

theorem strstr_terminated (hpattern : (0 : UInt8) ∉ pattern) (hs : (0 : UInt8) ∉ s) :
    strstr pattern (s ++ [0]) = some ((s.tails.find? pattern.isPrefixOf).map (· ++ [0])) := by
  induction s with
  | nil =>
    cases pattern with
    | nil => rfl
    | cons d pattern =>
      have hprefix : (d :: pattern).isPrefixOf [0] = false :=
        isPrefixOf_terminated (s := []) hpattern
      rw [nil_append, strstr, hprefix]
      rfl
  | cons c s ih =>
    obtain ⟨hc, hs⟩ := not_or.mp (mt mem_cons.mpr hs)
    rw [cons_append, strstr, ← cons_append, isPrefixOf_terminated hpattern, ih hs,
      tails_cons]
    by_cases hprefix : pattern.isPrefixOf (c :: s) = true
    · rw [if_pos hprefix, find?_cons_of_pos hprefix]
      rfl
    · rw [if_neg hprefix, if_neg (Ne.symm hc), find?_cons_of_neg hprefix]

theorem behind_terminated (drvpath : List UInt8) (h : (0 : UInt8) ∉ target) :
    ((target.tails.find? drvpath.isPrefixOf).map (· ++ [0])).elim (target ++ [0])
      (·.drop drvpath.length) = behind drvpath target ++ [0] ∧
        (0 : UInt8) ∉ behind drvpath target := by
  rw [behind]
  cases hfind : target.tails.find? drvpath.isPrefixOf with
  | none => exact ⟨rfl, h⟩
  | some pt =>
    have hprefix := isPrefixOf_iff_prefix.mp (find?_some hfind)
    have hsuffix := (mem_tails _ _).mp (mem_of_find?_eq_some hfind)
    refine ⟨drop_append_of_le_length hprefix.length_le, fun hmem => h ?_⟩
    exact hsuffix.subset (mem_of_mem_drop hmem)

theorem written_ne_nil {m : Method} {path : List UInt8} (h : m.Written path) : path ≠ [] := by
  rintro rfl
  obtain ⟨a, b, hpath⟩ := h
  obtain ⟨d, left, hscl, -, -⟩ := head?_scl m.container (replicate b slash ++
    (m.segment ++ slash :: (m.name ++ m.level ++ slash :: m.rest)))
  rw [hscl] at hpath
  exact absurd (append_eq_nil_iff.mp hpath.symm).2 (cons_ne_nil _ _)

theorem wDiaParseMethod_eq (hdrv : (0 : UInt8) ∉ drvpath) (htarget : (0 : UInt8) ∉ target)
    (hne : target ≠ []) (hpath : target ≠ slash :: drvpath) :
    wDiaParseMethod drvpath (target ++ [0]) out =
      parseContainer Out.reset (behind drvpath target ++ [0]) := by
  obtain ⟨hbehind, -⟩ := behind_terminated drvpath htarget
  have hstrstr := strstr_terminated hdrv htarget
  obtain ⟨c, target, rfl⟩ := exists_cons_of_ne_nil hne
  obtain ⟨hc, hzero⟩ := not_or.mp (mt mem_cons.mpr htarget)
  have hcstring := cstring_append [] hzero
  rw [wDiaParseMethod, hstrstr]
  simp only [cons_append, head?_cons, tail_cons, bind_eq_bind,
    bind_some, Ne.symm hc, if_false, hcstring]
  rw [← cons_append, hbehind]
  by_cases hslash : c = slash
  · rw [if_pos hslash, if_neg fun heq => hpath (by rw [hslash, heq])]
  · rw [if_neg hslash]

theorem wDiaParseMethod_driver (hdrv : (0 : UInt8) ∉ drvpath) :
    wDiaParseMethod drvpath (slash :: drvpath ++ [0]) out =
      some (0, { Out.reset with type := methodDrv }) := by
  rw [wDiaParseMethod]
  simp only [cons_append, head?_cons, tail_cons, bind_eq_bind,
    bind_some, cstring_append [] hdrv, if_true]
  rfl

/-- **Retargeting paths**: no byte behind the terminator is read and none outside the local buffers
is written, a target is accepted exactly if it is the driver path or a path behind it that has
parts, and what it gives is what it writes. -/
theorem parsed_iff (out : Out) (hdrv : (0 : UInt8) ∉ drvpath) (htarget : (0 : UInt8) ∉ target)
    (hregular : Regular (behind drvpath target)) :
    ∃ ret out', wDiaParseMethod drvpath (target ++ [0]) out = some (ret, out') ∧ ret ≤ 0 ∧
      (ret = 0 ↔ target = slash :: drvpath ∨
        ∃ m : Method, m.Valid ∧ m.Written (behind drvpath target)) ∧
      (target = slash :: drvpath → out' = { Out.reset with type := methodDrv }) ∧
      (target ≠ slash :: drvpath → ∀ m : Method, m.Valid → m.Written (behind drvpath target) →
        m.Values out') := by
  obtain ⟨-, hzero⟩ := behind_terminated drvpath htarget
  by_cases hpath : target = slash :: drvpath
  · subst hpath
    exact ⟨0, _, wDiaParseMethod_driver hdrv, Int.le_refl 0, iff_of_true rfl (.inl rfl),
      fun _ => rfl, fun hne => absurd rfl hne⟩
  by_cases hne : target = []
  · subst hne
    have hnone (m : Method) : ¬m.Written (behind drvpath []) := fun h => by
      refine written_ne_nil h ?_
      cases drvpath <;> rfl
    refine ⟨-1, out, rfl, by decide, iff_of_false (by decide) ?_, fun h => absurd h hpath,
      fun _ m _ hm => absurd hm (hnone m)⟩
    rintro (h | ⟨m, -, hm⟩)
    · exact hpath h
    · exact hnone m hm
  rw [wDiaParseMethod_eq hdrv htarget hne hpath]
  rcases parseContainer_cases Out.reset hzero hregular (by decide) with
    ⟨m, hm, hwritten⟩ | ⟨ret, hret, out', hparse⟩
  · have hparse := parseContainer_written Out.reset hzero hregular hm hwritten
    refine ⟨0, _, hparse, Int.le_refl 0, iff_of_true rfl (.inr ⟨m, hm, hwritten⟩),
      fun h => absurd h hpath, fun _ m' hm' hwritten' => ?_⟩
    have hsame := hparse.symm.trans (parseContainer_written _ hzero hregular hm' hwritten')
    rw [(Prod.mk.inj (Option.some.inj hsame)).2]
    exact values_result hm'
  · have hnone (m : Method) (hm : m.Valid) : ¬m.Written (behind drvpath target) := fun h => by
      have hparse' := parseContainer_written Out.reset hzero hregular hm h
      have hzero := (Prod.mk.inj (Option.some.inj (hparse.symm.trans hparse'))).1
      omega
    refine ⟨ret, out', hparse, Int.le_of_lt hret, iff_of_false (Int.ne_of_lt hret) ?_,
      fun h => absurd h hpath, fun _ m hm hwritten => absurd hwritten (hnone m hm)⟩
    rintro (h | ⟨m, hm, hwritten⟩)
    · exact hpath h
    · exact hnone m hm hwritten

/-- The parts of `APP_0a.1/retargeting2/0x0006.0x02.ope`. -/
def operation : Method where
  container := .app
  ident := ascii "0a"
  app := some (ascii "1")
  name := ascii "retargeting"
  level := ascii "2"
  rest := ascii "0x0006.0x02.ope"

/-- A target with these parts. -/
def operationTarget : List UInt8 := ascii "/knx/APP_0a.1/retargeting2/0x0006.0x02.ope"

theorem parsed_iff_operation : ∃ ret out',
    wDiaParseMethod (ascii "knx") (operationTarget ++ [0]) Out.reset = some (ret, out') ∧
      ret = 0 ∧ operation.Values out' := by
  have hdrv : (0 : UInt8) ∉ ascii "knx" := by decide
  have htarget : (0 : UInt8) ∉ operationTarget := by decide
  have hregular : Regular (behind (ascii "knx") operationTarget) := by decide
  have hvalid : operation.Valid := by
    refine ⟨by decide, fun app happ => ?_, ⟨by decide, fun c hc => ?_⟩,
      all_eq_true.mp (by decide), by decide, by decide, by decide⟩
    · rw [← Option.some.inj happ]
      decide
    · rw [← Option.some.inj hc]
      decide
  have hwritten : operation.Written (behind (ascii "knx") operationTarget) := ⟨1, 0, by decide⟩
  obtain ⟨ret, out', hparse, -, hret, -, hvalues⟩ := parsed_iff Out.reset hdrv htarget hregular
  exact ⟨ret, out', hparse, hret.mpr (.inr ⟨operation, hvalid, hwritten⟩),
    hvalues (by decide) operation hvalid hwritten⟩

/-- The driver path itself is accepted without a container. -/
theorem not_parsed_driver :
    (∃ out', wDiaParseMethod (ascii "knx") (ascii "/knx" ++ [0]) Out.reset = some (0, out')) ∧
      ¬∃ m : Method, m.Valid ∧ m.Written (behind (ascii "knx") (ascii "/knx")) := by
  refine ⟨⟨_, rfl⟩, ?_⟩
  rintro ⟨m, -, hwritten⟩
  exact written_ne_nil hwritten (by decide)

end Targets

end Ong.DrvCommon.Retargeting
