import Mathlib.Data.Bool.AllAny
import Ong.DrvCommon.ParseMethod
import Ong.Lib.Delimiter
import Ong.MicroDia.MessageTarget

/-!
# The parts of a URI

The function that takes a URI apart advances two pointers and a length by hand.  A pointer is here
the list of the bytes that can be read from it on, and the function has no result when it reads
behind them.

## Main results

* `exists_together`: what is put together from the parts of a URI has the same parts
* `splitPort_accepts`, `splitPort_refuses`, `splitPort_misled`: the result, by what follows the host
* `recomposes_iff`: the texts for which the function does what it is for
-/

namespace Ong.Dia.SplitUri

open List Delimiter

open Decimal (isDigit value)
open DrvCommon.Retargeting (strstr)
open MicroDia (bytes tolower portText)

def coapDefaultPort : UInt16 := 5683

/-- `coap_uri_t`, with the texts its pointers point to. -/
structure CoapUri where
  host : List UInt8
  port : UInt16
  path : List UInt8
  query : List UInt8
  deriving DecidableEq

/-- The bytes from one pointer up to a later one. -/
def upTo (p q : List UInt8) : List UInt8 := p.take (p.length - q.length)

/-- `len && *p == c` -/
def sees (c : UInt8) (p : List UInt8) (len : ℕ) : Option Bool :=
  if len = 0 then some false else p.head?.map (· == c)

/-- `while (len && ...) { ++q; --len; }` -/
def scan (go : UInt8 → Bool) : List UInt8 → ℕ → Option (List UInt8 × ℕ)
  | q, 0 => some (q, 0)
  | [], _ + 1 => none
  | b :: q, len + 1 => if go b then scan go q len else some (b :: q, len + 1)

/-- `dIa_split_uri` from the query on. -/
def splitQuery (uri : CoapUri) (p : List UInt8) (len : ℕ) : Option (Int × CoapUri) := do
  if ← sees 63 p len then some (0, { uri with query := p.tail.take (len - 1) })
  else some (if len = 0 then 0 else -1, uri)

/-- `dIa_split_uri` from the label `path` on. -/
def splitPath (uri : CoapUri) (p q : List UInt8) (len : ℕ) : Option (Int × CoapUri) := do
  if len = 0 then some (0, uri)
  else if ← sees 47 q len then
    let p := q.tail
    let (q, len) ← scan (· != 63) p (len - 1)
    splitQuery (if q.length < p.length then { uri with path := upTo p q } else uri) q len
  else splitQuery uri p len

/-- `dIa_split_uri` from the port on.  The `int` of the port is cut to its last 16 bits, which it
has also where it wraps around. -/
def splitPort (uri : CoapUri) (p q : List UInt8) (len : ℕ) : Option (Int × CoapUri) := do
  if ← sees 58 q len then
    let p := q.tail
    let (q, len) ← scan isDigit p (len - 1)
    if q.length < p.length then
      splitPath { uri with port := UInt16.ofInt (value (upTo p q)) } q q len
    else splitPath uri p q len
  else splitPath uri p q len

/-- The bytes of a host that has no brackets. -/
def hostByte (b : UInt8) : Bool := b != 58 && b != 47 && b != 63

/-- `dIa_split_uri` from the host on. -/
def splitHost (uri : CoapUri) (p : List UInt8) (len : ℕ) : Option (Int × CoapUri) := do
  if ← sees 91 p len then
    let (q, len) ← scan (· != 93) p len
    if len = 0 ∨ q.head? ≠ some 93 ∨ p.tail.length = q.length then some (-3, uri)
    else
      splitPort { uri with host := p.take (p.tail.length - q.length + 2) } p.tail q.tail (len - 1)
  else
    let (q, len) ← scan hostByte p len
    -- what is passed is put in lower case where it is
    let p := (upTo p q).map tolower ++ q
    if p.length = q.length then some (-3, uri)
    else splitPort { uri with host := upTo p q } p q len

def dIa_split_uri (str_var : List UInt8) (len : ℕ) : Option (Int × CoapUri) := do
  let uri : CoapUri := ⟨[], coapDefaultPort, [], []⟩
  if (← str_var.head?) = 47 then splitPath uri str_var str_var len
  else
    match ← strstr (bytes "://") str_var with
    | none => some (-2, uri)
    | some q => splitHost uri (q.drop 3) (len - (str_var.length - q.length + 3))

/-- A host: a name, which may be an IPv4 address, or an IPv6 address in brackets. -/
inductive Host
  | name (n : List UInt8)
  | address (a : List UInt8)

def letters : List UInt8 := bytes "ABCDEFGHIJKLMNOPQRSTUVWXYZabcdefghijklmnopqrstuvwxyz"

def digits : List UInt8 := bytes "0123456789"

/-- The characters of a scheme. -/
def schemeBytes : List UInt8 := letters ++ digits ++ bytes "+-."

/-- The characters of a name. -/
def nameBytes : List UInt8 := letters ++ digits ++ bytes "-._~%!$&()*+,;=" ++ [39]

/-- The characters of an IPv6 address. -/
def addressBytes : List UInt8 := bytes "0123456789ABCDEFabcdef:."

theorem bytes_marks : bytes "://" = [58, 47, 47] := by decide +kernel

theorem nameBytes_host : ∀ b ∈ nameBytes, hostByte b = true ∧ b ≠ 91 :=
  all_iff_forall_prop.mp (by decide +kernel)

theorem addressBytes_host : ∀ b ∈ addressBytes, (b != 93) = true ∧ b ≠ 63 :=
  all_iff_forall_prop.mp (by decide +kernel)

theorem tolower_mem : (∀ b ∈ nameBytes, tolower b ∈ nameBytes) ∧
    ∀ b ∈ addressBytes, tolower b ∈ addressBytes :=
  ⟨all_iff_forall_prop.mp (by decide +kernel),
    all_iff_forall_prop.mp (by decide +kernel)⟩

def IsScheme (s : List UInt8) : Prop := (∀ b ∈ s, b ∈ schemeBytes) ∧ ∃ b ∈ s.head?, b ∈ letters

namespace Host

def text : Host → List UInt8
  | name n => n
  | address a => 91 :: (a ++ [93])

def Proper : Host → Prop
  | name n => n ≠ [] ∧ ∀ b ∈ n, b ∈ nameBytes
  | address a => a ≠ [] ∧ ∀ b ∈ a, b ∈ addressBytes

/-- The host in lower case. -/
def lower : Host → Host
  | name n => name (n.map tolower)
  | address a => address (a.map tolower)

/-- The host as it is delivered, in lower case only if it is a name. -/
def delivered : Host → List UInt8
  | name n => n.map tolower
  | address a => 91 :: (a ++ [93])

/-- What the pointer behind the host is behind, when no port moves it. -/
def first : Host → Option UInt8
  | name n => n.head?
  | address a => a.head?

end Host

/-- What follows the host: a port, a path without its first slash, and a query. -/
structure Rest where
  port : Option (List UInt8)
  path : Option (List UInt8)
  query : Option (List UInt8)

/-- A part that may be absent, behind its delimiter. -/
def part (c : UInt8) (o : Option (List UInt8)) : List UInt8 := o.elim [] (c :: ·)

namespace Rest

def text (x : Rest) : List UInt8 := part 58 x.port ++ (part 47 x.path ++ part 63 x.query)

/-- A port is digits, and a path has no question mark. -/
structure Shaped (x : Rest) : Prop where
  port : ∀ d ∈ x.port, ∀ b ∈ d, isDigit b = true
  path : ∀ p ∈ x.path, ∀ b ∈ p, b ≠ 63

/-- The port, which is the default one when there are no digits. -/
def portOf (x : Rest) : UInt16 :=
  if x.port.getD [] = [] then coapDefaultPort else UInt16.ofInt (value (x.port.getD []))

/-- A query alone. -/
def queryOnly (x : Rest) : Bool := x.port.isNone && x.path.isNone && x.query.isSome

end Rest

/-- A URI: with a scheme and a host, or an absolute path. -/
structure Uri extends Rest where
  server : Option (List UInt8 × Host)

namespace Uri

def text (u : Uri) : List UInt8 :=
  u.server.elim [] (fun s => s.1 ++ (bytes "://" ++ s.2.text)) ++ u.toRest.text

structure WellFormed (u : Uri) : Prop where
  server : ∀ s ∈ u.server, IsScheme s.1 ∧ s.2.Proper
  absolute : u.server = none → u.port = none ∧ u.path ≠ none
  shaped : u.toRest.Shaped
  port : ∀ d ∈ u.port, value d ≤ 65535

/-- What is to be delivered: the host in lower case. -/
def parts (u : Uri) : CoapUri :=
  ⟨u.server.elim [] (·.2.lower.text), u.portOf, u.path.getD [], u.query.getD []⟩

end Uri

/-- A URI put together from the scheme and what was delivered. -/
def together (scheme : Option (List UInt8)) (c : CoapUri) : List UInt8 :=
  scheme.elim [] (fun s => s ++ (bytes "://" ++ c.host) ++ 58 :: portText c.port.toNat) ++
    (47 :: c.path ++ if c.query = [] then [] else 63 :: c.query)

/-- **What the function is for**, given a text with its length: it reads nothing else, delivers the
parts of a URI, from which it can be put together again, and refuses every other text. -/
structure Recomposes (s : List UInt8) : Prop where
  inside : (dIa_split_uri s s.length).isSome
  delivers : ∀ u : Uri, u.WellFormed → u.text = s → ∀ m,
    dIa_split_uri (s ++ 0 :: m) s.length = some (0, u.parts) ∧
      ∃ v : Uri, v.WellFormed ∧ v.text = together (u.server.map Prod.fst) u.parts ∧
        v.parts = u.parts
  refuses : (∀ u : Uri, u.WellFormed → u.text ≠ s) → ∀ m,
    ∃ res uri, dIa_split_uri (s ++ 0 :: m) s.length = some (res, uri) ∧ res ≠ 0

/-- The text before the first `://`, and the text behind. -/
def lexScheme : List UInt8 → Option (List UInt8 × List UInt8)
  | [] => none
  | b :: s =>
    if (bytes "://").isPrefixOf (b :: s) then some ([], (b :: s).drop 3)
    else (lexScheme s).map fun x => (b :: x.1, x.2)

/-- An address up to its closing bracket, and what follows. -/
def lexAddress (t : List UInt8) : Option (Host × List UInt8) :=
  if t.takeWhile (· != 93) = [] ∨ t.dropWhile (· != 93) = [] then none
  else some (.address (t.takeWhile (· != 93)), (t.dropWhile (· != 93)).tail)

/-- The host, and what follows. -/
def lexHost (t : List UInt8) : Option (Host × List UInt8) :=
  if t.head? = some 91 then lexAddress t.tail
  else if t.takeWhile hostByte = [] then none
  else some (.name (t.takeWhile hostByte), t.dropWhile hostByte)

/-- A path and a query. -/
def lexPath (port : Option (List UInt8)) (r : List UInt8) : Option Rest :=
  if r = [] then some ⟨port, none, none⟩
  else if r.head? = some 47 then
    let q := r.tail.dropWhile (· != 63)
    some ⟨port, some (r.tail.takeWhile (· != 63)), q.head?.map fun _ => q.tail⟩
  else if r.head? = some 63 then some ⟨port, none, some r.tail⟩
  else none

/-- A port, a path and a query. -/
def lexRest (r : List UInt8) : Option Rest :=
  if r.head? = some 58 then
    lexPath (some (r.tail.takeWhile isDigit)) (r.tail.dropWhile isDigit)
  else lexPath none r

/-- What follows the host of a text is served.  A query right behind the host is refused, so that
what is before it must not make up a URI; what is accepted has to be a URI, with a port of 16 bits
and an address without capitals.  An address that begins with a question mark is taken for the
query. -/
def RestServed (scheme : List UInt8) (y : Host) (r : List UInt8) : Prop :=
  match lexRest r with
  | none => r.head? = some 58 ∨ y.first ≠ some 63
  | some x =>
    if x.queryOnly then ¬(IsScheme scheme ∧ y.Proper) ∧ y.first ≠ some 63
    else (IsScheme scheme ∧ y.Proper) ∧ y.delivered = y.lower.text ∧ ∀ d ∈ x.port, value d ≤ 65535

/-- **The texts the function serves**: an absolute path, or a text with a scheme. -/
def Serves (s : List UInt8) : Prop :=
  s.head? = some 47 ∨ ∃ x ∈ lexScheme s, ∀ y ∈ lexHost x.2, RestServed x.1 y.1 y.2

section Pointers

variable {go : UInt8 → Bool} {c : UInt8} {r m p : List UInt8}

theorem sees_eq (r m : List UInt8) (c : UInt8) :
    sees c (r ++ m) r.length = some (r.head? == some c) := by
  cases r with
  | nil => rfl
  | cons b r =>
    rw [sees, length_cons, if_neg (Nat.succ_ne_zero _), cons_append, head?_cons,
      head?_cons, Option.map_some, Option.some_beq_some]

theorem scan_eq (go : UInt8 → Bool) (r m : List UInt8) :
    scan go (r ++ m) r.length = some (r.dropWhile go ++ m, (r.dropWhile go).length) := by
  induction r with
  | nil =>
    rw [dropWhile_nil, length_nil]
    cases m <;> rfl
  | cons b r ih =>
    rw [cons_append, length_cons, scan, ih, dropWhile_cons]
    split
    · rfl
    · rw [cons_append, length_cons]

theorem upTo_append (a b : List UInt8) : upTo (a ++ b) b = a := by
  rw [upTo, length_append, Nat.add_sub_cancel, take_left]

theorem upTo_dropWhile (go : UInt8 → Bool) (r m : List UInt8) :
    upTo (r ++ m) (r.dropWhile go ++ m) = r.takeWhile go := by
  have hsplit : r ++ m = r.takeWhile go ++ (r.dropWhile go ++ m) := by
    rw [← append_assoc, takeWhile_append_dropWhile]
  rw [hsplit, upTo_append]

theorem length_dropWhile_lt (go : UInt8 → Bool) (r m : List UInt8) :
    (r.dropWhile go ++ m).length < (r ++ m).length ↔ r.takeWhile go ≠ [] := by
  have hsplit := congrArg length (takeWhile_append_dropWhile (p := go) (l := r))
  rw [length_append] at hsplit
  rw [length_append, length_append, ← length_pos_iff]
  omega

theorem not_of_dropWhile {b : UInt8} {q : List UInt8} (h : r.dropWhile go = b :: q) :
    go b = false := by
  have hnot := head?_dropWhile_not go r
  rwa [h] at hnot

end Pointers

variable {port : Option (List UInt8)} {host : List UInt8}

section Code

variable {uri : CoapUri} {r m p : List UInt8} {b : UInt8} {x : Rest}

theorem splitQuery_nil (uri : CoapUri) (p : List UInt8) : splitQuery uri p 0 = some (0, uri) := rfl

theorem splitQuery_of_head (hp : p.head? = some 63) (hr : r ≠ []) :
    splitQuery uri p r.length = some (0, { uri with query := p.tail.take (r.length - 1) }) := by
  have hlen : r.length ≠ 0 := mt length_eq_zero_iff.mp hr
  simp only [splitQuery, sees, if_neg hlen, hp, Option.map_some, Option.bind_eq_bind,
    Option.bind_some, beq_self_eq_true, if_true]

theorem splitQuery_of_ne (hp : p.head? = some b) (hb : b ≠ 63) (hr : r ≠ []) :
    splitQuery uri p r.length = some (-1, uri) := by
  have hlen : r.length ≠ 0 := mt length_eq_zero_iff.mp hr
  simp only [splitQuery, sees, if_neg hlen, hp, Option.map_some, Option.bind_eq_bind,
    Option.bind_some, beq_eq_false_iff_ne.mpr hb, Bool.false_eq_true, if_false]

theorem splitQuery_here (uri : CoapUri) (q m : List UInt8) :
    splitQuery uri (63 :: q ++ m) (63 :: q).length = some (0, { uri with query := q }) := by
  rw [splitQuery_of_head rfl (cons_ne_nil _ _), cons_append, tail_cons,
    length_cons, Nat.add_sub_cancel, take_left]

theorem splitPath_slash (hpath : uri.path = []) (hquery : uri.query = []) (p r m : List UInt8) :
    splitPath uri p (47 :: r ++ m) (47 :: r).length = some (0, { uri with
      path := r.takeWhile (· != 63)
      query := ((r.dropWhile (· != 63)).head?.map fun _ =>
        (r.dropWhile (· != 63)).tail).getD [] }) := by
  have hsees := sees_eq (47 :: r) m 47
  have huri : (if r.takeWhile (· != 63) ≠ [] then { uri with path := r.takeWhile (· != 63) }
      else uri) = { uri with path := r.takeWhile (· != 63) } := by
    split
    · rfl
    · next hnil => rw [not_not.mp hnil, ← hpath]
  have hlen : (47 :: r).length ≠ 0 := Nat.succ_ne_zero _
  simp only [splitPath, if_neg hlen, hsees, head?_cons, beq_self_eq_true, if_true,
    Option.bind_eq_bind, Option.bind_some]
  simp only [cons_append, tail_cons, length_cons, Nat.add_sub_cancel, scan_eq,
    Option.bind_some, upTo_dropWhile, length_dropWhile_lt, huri]
  cases hd : r.dropWhile (· != 63) with
  | nil =>
    rw [length_nil, splitQuery_nil, head?_nil, Option.map_none, Option.getD_none,
      ← hquery]
  | cons c q =>
    obtain rfl : c = 63 := by simpa using not_of_dropWhile hd
    rw [splitQuery_here, head?_cons, Option.map_some, Option.getD_some, tail_cons]

theorem splitPath_other (h : r.head? ≠ some 47) (p m : List UInt8) :
    splitPath uri p (r ++ m) r.length = splitQuery uri p r.length := by
  simp only [splitPath, sees_eq, beq_eq_false_iff_ne.mpr h, Option.bind_eq_bind, Option.bind_some,
    Bool.false_eq_true, if_false]
  split
  · next hlen => rw [hlen, splitQuery_nil]
  · rfl

theorem lexPath_cases (port : Option (List UInt8)) (r : List UInt8) :
    (r = [] ∧ lexPath port r = some ⟨port, none, none⟩) ∨
    (∃ q, r = 47 :: q ∧ lexPath port r = some ⟨port, some (q.takeWhile (· != 63)),
      (q.dropWhile (· != 63)).head?.map fun _ => (q.dropWhile (· != 63)).tail⟩) ∨
    (∃ q, r = 63 :: q ∧ lexPath port r = some ⟨port, none, some q⟩) ∨
    r ≠ [] ∧ r.head? ≠ some 47 ∧ r.head? ≠ some 63 ∧ lexPath port r = none := by
  unfold lexPath
  split
  · next h => exact .inl ⟨h, rfl⟩
  · next h =>
    obtain ⟨b, q, rfl⟩ := exists_cons_of_ne_nil h
    split
    · next hb =>
      cases hb
      exact .inr (.inl ⟨q, rfl, rfl⟩)
    · next hb =>
      split
      · next hb' =>
        cases hb'
        exact .inr (.inr (.inl ⟨q, rfl, rfl⟩))
      · next hb' => exact .inr (.inr (.inr ⟨h, hb, hb', rfl⟩))

theorem port_of_lexPath (h : lexPath port r = some x) : x.port = port := by
  rcases lexPath_cases port r with ⟨-, hlex⟩ | ⟨q, -, hlex⟩ | ⟨q, -, hlex⟩ | ⟨-, -, -, hlex⟩ <;>
    rw [hlex] at h <;> cases h <;> rfl

theorem splitPath_here (hpath : uri.path = []) (hquery : uri.query = [])
    (port : Option (List UInt8)) (r m : List UInt8) :
    splitPath uri (r ++ m) (r ++ m) r.length = some ((lexPath port r).elim (-1, uri)
      fun x => (0, { uri with path := x.path.getD [], query := x.query.getD [] })) := by
  rcases lexPath_cases port r with ⟨rfl, hlex⟩ | ⟨q, rfl, hlex⟩ | ⟨q, rfl, hlex⟩ |
    ⟨hr, h47, h63, hlex⟩
  · rw [hlex, splitPath_other (by simp), length_nil, splitQuery_nil, Option.elim_some,
      Option.getD_none]
    show some (0, (⟨uri.host, uri.port, uri.path, uri.query⟩ : CoapUri)) = _
    rw [hpath, hquery]
  · rw [hlex, splitPath_slash hpath hquery, Option.elim_some, Option.getD_some]
  · rw [hlex, splitPath_other (by simp), splitQuery_here, Option.elim_some, Option.getD_none,
      Option.getD_some, ← hpath]
  · obtain ⟨b, q, rfl⟩ := exists_cons_of_ne_nil hr
    rw [hlex, splitPath_other h47, splitQuery_of_ne rfl (fun hb => h63 (congrArg some hb)) hr,
      Option.elim_none]

theorem splitPort_colon (hport : uri.port = coapDefaultPort) (hpath : uri.path = [])
    (hquery : uri.query = []) (p r m : List UInt8) :
    ∃ port, splitPort uri p (58 :: r ++ m) (58 :: r).length = some ((lexRest (58 :: r)).elim
      (-1, { uri with port := port })
      fun x => (0, ⟨uri.host, x.portOf, x.path.getD [], x.query.getD []⟩)) := by
  have hsees := sees_eq (58 :: r) m 58
  simp only [splitPort, hsees, head?_cons, beq_self_eq_true, if_true, Option.bind_eq_bind,
    Option.bind_some]
  simp only [cons_append, tail_cons, length_cons, Nat.add_sub_cancel, scan_eq,
    Option.bind_some, upTo_dropWhile, length_dropWhile_lt, lexRest, head?_cons, if_true]
  split
  · next hds =>
    refine ⟨UInt16.ofInt (value (r.takeWhile isDigit)), ?_⟩
    rw [splitPath_here (by exact hpath) (by exact hquery) (some (r.takeWhile isDigit))]
    cases hlex : lexPath (some (r.takeWhile isDigit)) (r.dropWhile isDigit) with
    | none => rfl
    | some x =>
      rw [Option.elim_some, Option.elim_some, Rest.portOf, port_of_lexPath hlex, Option.getD_some,
        if_neg hds]
  · next hds =>
    have hnone : r.dropWhile isDigit = r := by
      have hsplit := takeWhile_append_dropWhile (p := isDigit) (l := r)
      rwa [not_not.mp hds, nil_append] at hsplit
    refine ⟨uri.port, ?_⟩
    rw [hnone, splitPath_here hpath hquery (some (r.takeWhile isDigit))]
    cases hlex : lexPath (some (r.takeWhile isDigit)) r with
    | none => rfl
    | some x =>
      rw [Option.elim_some, Option.elim_some, Rest.portOf, port_of_lexPath hlex, Option.getD_some,
        if_pos (not_not.mp hds), hport]

theorem splitPort_other (h : r.head? ≠ some 58) (p m : List UInt8) :
    splitPort uri p (r ++ m) r.length = splitPath uri p (r ++ m) r.length := by
  simp only [splitPort, sees_eq, beq_eq_false_iff_ne.mpr h, Option.bind_eq_bind, Option.bind_some,
    Bool.false_eq_true, if_false]

/-- The texts that are accepted as they should be. -/
theorem splitPort_accepts (hlex : lexRest r = some x) (hx : x.queryOnly = false)
    (p m : List UInt8) :
    splitPort ⟨host, coapDefaultPort, [], []⟩ p (r ++ m) r.length =
      some (0, ⟨host, x.portOf, x.path.getD [], x.query.getD []⟩) := by
  by_cases hcolon : r.head? = some 58
  · obtain ⟨q, rfl⟩ := head?_eq_some_iff.mp hcolon
    obtain ⟨port, hsplit⟩ := @splitPort_colon ⟨host, coapDefaultPort, [], []⟩ rfl rfl rfl p q m
    rw [hsplit, hlex, Option.elim_some]
  · rw [splitPort_other hcolon]
    rw [lexRest, if_neg hcolon] at hlex
    rcases lexPath_cases none r with ⟨rfl, hcase⟩ | ⟨q, rfl, hcase⟩ | ⟨q, -, hcase⟩ |
      ⟨-, -, -, hcase⟩ <;> rw [hcase] at hlex <;> cases hlex
    · rw [splitPath_other (by simp)]
      rfl
    · rw [splitPath_slash rfl rfl]
      rfl
    · cases hx

section

variable (hlex : ∀ x ∈ lexRest r, x.queryOnly = true)

include hlex

theorem splitPort_of_not (hcolon : r.head? ≠ some 58) (p m : List UInt8) :
    splitPort uri p (r ++ m) r.length = splitQuery uri p r.length ∧ r ≠ [] := by
  rw [lexRest, if_neg hcolon] at hlex
  rw [splitPort_other hcolon]
  rcases lexPath_cases none r with ⟨-, hcase⟩ | ⟨q, -, hcase⟩ | ⟨q, rfl, -⟩ | ⟨hr, h47, -, -⟩
  · exact absurd (hlex _ hcase) Bool.false_ne_true
  · exact absurd (hlex _ hcase) Bool.false_ne_true
  · exact ⟨splitPath_other (by simp) p m, cons_ne_nil _ _⟩
  · exact ⟨splitPath_other h47 p m, hr⟩

/-- A colon is refused, and a byte that begins no query. -/
theorem splitPort_refuses (hp : p.head? = some b) (h : r.head? = some 58 ∨ b ≠ 63)
    (m : List UInt8) :
    ∃ uri, splitPort ⟨host, coapDefaultPort, [], []⟩ p (r ++ m) r.length = some (-1, uri) := by
  by_cases hcolon : r.head? = some 58
  · obtain ⟨q, rfl⟩ := head?_eq_some_iff.mp hcolon
    obtain ⟨port, hsplit⟩ := @splitPort_colon ⟨host, coapDefaultPort, [], []⟩ rfl rfl rfl p q m
    cases hx : lexRest (58 :: q) with
    | none => exact ⟨_, by rw [hsplit, hx, Option.elim_none]⟩
    | some x =>
      have honly := hlex x hx
      rw [lexRest, if_pos hcolon] at hx
      rw [Rest.queryOnly, port_of_lexPath hx] at honly
      cases honly
  · obtain ⟨hsplit, hr⟩ := splitPort_of_not hlex hcolon p m
    exact ⟨_, hsplit.trans (splitQuery_of_ne hp (h.resolve_left hcolon) hr)⟩

/-- A query right behind the host is accepted, and not seen. -/
theorem splitPort_misled (hp : p.head? = some 63) (hcolon : r.head? ≠ some 58) (m : List UInt8) :
    ∃ uri', splitPort uri p (r ++ m) r.length = some (0, uri') := by
  obtain ⟨hsplit, hr⟩ := splitPort_of_not hlex hcolon p m
  exact ⟨_, hsplit.trans (splitQuery_of_head hp hr)⟩

end

end Code

variable {y : Host}

section Hosts

variable {t r m : List UInt8} {b : UInt8}

theorem tolower_ne (h : b ≠ 63) : tolower b ≠ 63 := by
  unfold tolower
  split
  · intro heq
    have hsum := congrArg UInt8.toNat heq
    rw [UInt8.toNat_add] at hsum
    have : (32 : UInt8).toNat = 32 := rfl
    have : (63 : UInt8).toNat = 63 := rfl
    omega
  · exact h

theorem splitHost_none (h : lexHost t = none) (uri : CoapUri) (m : List UInt8) :
    splitHost uri (t ++ m) t.length = some (-3, uri) := by
  unfold lexHost at h
  split at h
  · next hhead =>
    obtain ⟨t, rfl⟩ := head?_eq_some_iff.mp hhead
    have hsees := sees_eq (91 :: t) m 91
    have hscan := scan_eq (· != 93) (91 :: t) m
    simp only [splitHost, hsees, hscan, hhead, beq_self_eq_true, if_true, Option.bind_eq_bind,
      Option.bind_some]
    refine if_pos ?_
    rw [dropWhile_cons_of_pos (by decide), length_eq_zero_iff]
    rw [tail_cons, lexAddress] at h
    split at h
    · next hor =>
      rcases hor with hnil | hnil
      · refine .inr (.inr ?_)
        have hsplit := takeWhile_append_dropWhile (p := (· != (93 : UInt8))) (l := t)
        rw [hnil, nil_append] at hsplit
        rw [hsplit, cons_append, tail_cons]
      · exact .inl hnil
    · cases h
  · next hhead =>
    simp only [ite_eq_left_iff, reduceCtorEq, imp_false, not_not] at h
    simp only [splitHost, sees_eq, scan_eq, beq_eq_false_iff_ne.mpr hhead, Option.bind_eq_bind,
      Option.bind_some, Bool.false_eq_true, if_false, upTo_dropWhile, h, map_nil,
      nil_append, if_true]

theorem splitHost_some (h : lexHost t = some (y, r)) (uri : CoapUri) (m : List UInt8) :
    ∃ p b, p.head? = some b ∧ (b = 63 ↔ y.first = some 63) ∧
      splitHost uri (t ++ m) t.length =
        splitPort { uri with host := y.delivered } p (r ++ m) r.length := by
  unfold lexHost at h
  split at h
  · next hhead =>
    obtain ⟨t, rfl⟩ := head?_eq_some_iff.mp hhead
    have hsees := sees_eq (91 :: t) m 91
    have hscan := scan_eq (· != 93) (91 :: t) m
    rw [tail_cons, lexAddress] at h
    split at h
    · cases h
    · next hor =>
      obtain ⟨ha, hd⟩ := not_or.mp hor
      cases h
      obtain ⟨c, r, hcons⟩ := exists_cons_of_ne_nil hd
      obtain rfl : c = 93 := by simpa using not_of_dropWhile hcons
      obtain ⟨b, a, hba⟩ := exists_cons_of_ne_nil ha
      have ht : t = b :: a ++ 93 :: r := by
        rw [← hba, ← hcons, takeWhile_append_dropWhile]
      rw [dropWhile_cons_of_pos (by decide), hcons] at hscan
      simp only [splitHost, hsees, hscan, hhead, beq_self_eq_true, if_true, Option.bind_eq_bind,
        Option.bind_some, hcons, tail_cons]
      have hhost : (91 :: t ++ m).take ((91 :: t ++ m).tail.length - (93 :: r ++ m).length + 2) =
          91 :: (b :: a ++ [93]) := by
        have hlen : (91 :: t ++ m).tail.length - (93 :: r ++ m).length + 2 =
            (91 :: (b :: a ++ [93])).length := by
          simp only [ht, cons_append, tail_cons, length_append, length_cons,
            length_nil]
          omega
        rw [hlen, ht, show 91 :: (b :: a ++ 93 :: r) ++ m = 91 :: (b :: a ++ [93]) ++ (r ++ m) by
          simp only [cons_append, append_assoc, nil_append], take_left]
      refine ⟨t ++ m, b, by rw [ht]; rfl, by simp only [Host.first, hba, head?_cons,
        Option.some_inj], ?_⟩
      rw [hhost, if_neg, Host.delivered, hba]
      · rfl
      · rintro (hlen | hne | hlen)
        · cases hlen
        · exact hne rfl
        · simp only [ht, cons_append, tail_cons, length_append,
            length_cons] at hlen
          omega
  · next hhead =>
    split at h
    · cases h
    · next hn =>
      cases h
      obtain ⟨b, n, hbn⟩ := exists_cons_of_ne_nil hn
      simp only [splitHost, sees_eq, scan_eq, beq_eq_false_iff_ne.mpr hhead, Option.bind_eq_bind,
        Option.bind_some, Bool.false_eq_true, if_false, upTo_dropWhile, upTo_append]
      have hb : b ≠ 63 := fun h63 => by
        have hmem : b ∈ t.takeWhile hostByte := by
          rw [hbn]
          exact mem_cons_self
        have hgo := mem_takeWhile_imp hmem
        rw [h63] at hgo
        cases hgo
      refine ⟨_, tolower b, by rw [hbn]; rfl, ?_, if_neg ?_⟩
      · rw [Host.first, hbn, head?_cons, Option.some_inj]
        exact iff_of_false (tolower_ne hb) hb
      · rw [hbn, map_cons, cons_append, length_cons, length_append]
        omega

end Hosts

section Whole

variable {s a t r m : List UInt8} {x : Rest}

theorem eq_of_lexScheme (h : lexScheme s = some (a, t)) : s = a ++ (bytes "://" ++ t) := by
  induction s generalizing a with
  | nil => cases h
  | cons b s ih =>
    rw [lexScheme] at h
    split at h
    · next hpre =>
      obtain ⟨t', ht'⟩ := isPrefixOf_iff_prefix.mp hpre
      rw [← ht', bytes_marks] at h
      cases h
      rw [nil_append, ← ht', bytes_marks]
      rfl
    · obtain ⟨⟨a', t'⟩, hlex, heq⟩ := Option.map_eq_some_iff.mp h
      cases heq
      rw [cons_append, ← ih hlex]

theorem strstr_some (h : lexScheme s = some (a, t)) (h0 : (0 : UInt8) ∉ s) (m : List UInt8) :
    strstr (bytes "://") (s ++ m) = some (some (bytes "://" ++ (t ++ m))) := by
  induction s generalizing a with
  | nil => cases h
  | cons b s ih =>
    obtain ⟨hb, h0⟩ := not_or.mp (mt mem_cons.mpr h0)
    have heq := eq_of_lexScheme h
    rw [lexScheme] at h
    rw [cons_append, strstr]
    split at h
    · next hpre =>
      have ha : [] = a := congrArg Prod.fst (Option.some.inj h)
      rw [← ha, nil_append] at heq
      rw [← cons_append, heq, append_assoc,
        if_pos (List.isPrefixOf_iff_prefix.mpr (prefix_append _ _))]
    · next hpre =>
      obtain ⟨⟨a', t'⟩, hlex, hcons⟩ := Option.map_eq_some_iff.mp h
      cases hcons
      have hnot : ¬(bytes "://").isPrefixOf (b :: (s ++ m)) = true := fun hmark => hpre <| by
        rw [List.isPrefixOf_iff_prefix] at hmark ⊢
        refine prefix_of_prefix_length_le hmark (prefix_append (b :: s) m) ?_
        rw [heq, length_append, length_append]
        omega
      rw [if_neg hnot, if_neg (Ne.symm hb), ih hlex h0]

theorem strstr_none (h : lexScheme s = none) (h0 : (0 : UInt8) ∉ s) :
    strstr (bytes "://") s = none := by
  induction s with
  | nil => rfl
  | cons b s ih =>
    obtain ⟨hb, h0⟩ := not_or.mp (mt mem_cons.mpr h0)
    rw [lexScheme] at h
    split at h
    · cases h
    · next hpre => rw [strstr, if_neg hpre, if_neg (Ne.symm hb),
        ih (Option.map_eq_none_iff.mp h) h0]

theorem split_scheme (h : lexScheme s = some (a, t)) (h0 : (0 : UInt8) ∉ s)
    (hs : s.head? ≠ some 47) (m : List UInt8) : dIa_split_uri (s ++ m) s.length =
      splitHost ⟨[], coapDefaultPort, [], []⟩ (t ++ m) t.length := by
  cases s with
  | nil => cases h
  | cons b s =>
    have hb : b ≠ 47 := fun hb => hs (congrArg some hb)
    have hlen := congrArg length (eq_of_lexScheme h)
    have hrest : (b :: s).length - ((b :: s ++ m).length - (bytes "://" ++ (t ++ m)).length + 3) =
        t.length := by
      simp only [bytes_marks, length_append, length_cons, length_nil] at hlen ⊢
      omega
    rw [dIa_split_uri, strstr_some h h0]
    simp only [cons_append, head?_cons, Option.bind_eq_bind, Option.bind_some, if_neg hb]
    rw [← cons_append, hrest, bytes_marks]
    rfl

theorem split_noScheme (h : lexScheme s = none) (h0 : (0 : UInt8) ∉ s) (hs : s.head? ≠ some 47) :
    dIa_split_uri s s.length = none := by
  cases s with
  | nil => rfl
  | cons b s =>
    have hb : b ≠ 47 := fun hb => hs (congrArg some hb)
    simp only [dIa_split_uri, strstr_none h h0, head?_cons, Option.bind_eq_bind,
      Option.bind_some, if_neg hb, Option.bind_none]

theorem split_absolute (r m : List UInt8) : dIa_split_uri (47 :: r ++ m) (47 :: r).length =
    some (0, ⟨[], coapDefaultPort, r.takeWhile (· != 63),
      ((r.dropWhile (· != 63)).head?.map fun _ => (r.dropWhile (· != 63)).tail).getD []⟩) := by
  have hhead : (47 :: r ++ m).head? = some 47 := rfl
  simp only [dIa_split_uri, hhead, Option.bind_eq_bind, Option.bind_some, if_true]
  exact splitPath_slash rfl rfl _ r m

end Whole

section Texts

variable {a t r : List UInt8} {x : Rest} {path query : Option (List UInt8)}

theorem lexScheme_text (ha : ∀ b ∈ a, b ≠ 58) (t : List UInt8) :
    lexScheme (a ++ (bytes "://" ++ t)) = some (a, t) := by
  induction a with
  | nil =>
    rw [bytes_marks]
    rfl
  | cons b a ih =>
    obtain ⟨hb, ha⟩ := forall_mem_cons.mp ha
    have hnot : (bytes "://").isPrefixOf (b :: (a ++ (bytes "://" ++ t))) = false := by
      rw [bytes_marks, isPrefixOf_cons_cons, beq_eq_false_iff_ne.mpr (Ne.symm hb),
        Bool.false_and]
    rw [cons_append, lexScheme, if_neg (Bool.eq_false_iff.mp hnot), ih ha, Option.map_some]

theorem eq_of_lexHost (h : lexHost t = some (y, r)) : t = y.text ++ r := by
  unfold lexHost at h
  split at h
  · next hhead =>
    obtain ⟨t, rfl⟩ := head?_eq_some_iff.mp hhead
    rw [tail_cons, lexAddress] at h
    split at h
    · cases h
    · next hor =>
      obtain ⟨c, r, hcons⟩ := exists_cons_of_ne_nil (not_or.mp hor).2
      obtain rfl : c = 93 := by simpa using not_of_dropWhile hcons
      cases h
      rw [Host.text, hcons, tail_cons, cons_append, append_assoc,
        singleton_append, ← hcons, takeWhile_append_dropWhile]
  · split at h
    · cases h
    · cases h
      exact takeWhile_append_dropWhile.symm

theorem lexHost_text (hy : y.Proper) (hr : ∀ b ∈ r.head?, hostByte b = false) :
    lexHost (y.text ++ r) = some (y, r) := by
  cases y with
  | name n =>
    obtain ⟨hn, hall⟩ := hy
    have hgo : ∀ b ∈ n, hostByte b = true := fun b hb => (nameBytes_host b (hall b hb)).1
    have hhead : (n ++ r).head? ≠ some 91 := by
      obtain ⟨b, n, rfl⟩ := exists_cons_of_ne_nil hn
      exact fun h => (nameBytes_host b (hall b mem_cons_self)).2 (Option.some.inj h)
    rw [Host.text, lexHost, if_neg hhead, takeWhile_append hgo hr,
      dropWhile_append hgo hr, if_neg hn]
  | address a =>
    obtain ⟨ha, hall⟩ := hy
    have hgo : ∀ b ∈ a, (b != 93) = true := fun b hb => (addressBytes_host b (hall b hb)).1
    have hstop : ∀ b ∈ (93 :: r).head?, (b != 93) = false := fun b hb => by
      cases hb
      rfl
    rw [Host.text, cons_append, append_assoc, singleton_append, lexHost,
      head?_cons, if_pos rfl, tail_cons, lexAddress,
      takeWhile_append hgo hstop, dropWhile_append hgo hstop, if_neg,
      tail_cons]
    exact not_or.mpr ⟨ha, cons_ne_nil _ _⟩

theorem head?_part {c : UInt8} {o : Option (List UInt8)} {b : UInt8} (h : b ∈ (part c o).head?) :
    b = c := by
  cases o with
  | none => cases h
  | some o => exact (Option.some.inj h).symm

theorem head?_rest (x : Rest) : ∀ b ∈ x.text.head?, hostByte b = false := by
  obtain ⟨port, path, query⟩ := x
  intro b hb
  cases port with
  | some d =>
    cases hb
    rfl
  | none =>
    cases path with
    | some p =>
      cases hb
      rfl
    | none =>
      rw [head?_part (o := query) hb]
      rfl

theorem lexPath_text (port : Option (List UInt8)) (hpath : ∀ p ∈ path, ∀ b ∈ p, b ≠ 63) :
    lexPath port (part 47 path ++ part 63 query) = some ⟨port, path, query⟩ := by
  cases path with
  | none => cases query <;> rfl
  | some p =>
    have hgo : ∀ b ∈ p, (b != 63) = true := fun b hb => bne_iff_ne.mpr (hpath p rfl b hb)
    have hstop : ∀ b ∈ (part 63 query).head?, (b != 63) = false := fun b hb => by
      rw [head?_part hb]
      rfl
    show lexPath port (47 :: (p ++ part 63 query)) = _
    rw [lexPath, if_neg (cons_ne_nil _ _), head?_cons, if_pos rfl, tail_cons,
      takeWhile_append hgo hstop, dropWhile_append hgo hstop]
    cases query <;> rfl

theorem lexRest_text (hx : x.Shaped) : lexRest x.text = some x := by
  obtain ⟨port, path, query⟩ := x
  have hstop : ∀ b ∈ (part 47 path ++ part 63 query).head?, b = 47 ∨ b = 63 := fun b hb => by
    cases path with
    | none => exact .inr (head?_part hb)
    | some p => exact .inl (Option.some.inj hb).symm
  cases port with
  | none =>
    have hhead : (Rest.text ⟨none, path, query⟩).head? ≠ some 58 := fun h => by
      rcases hstop 58 h with h | h <;> cases h
    rw [lexRest, if_neg hhead]
    exact lexPath_text none hx.path
  | some d =>
    have hnot : ∀ b ∈ (part 47 path ++ part 63 query).head?, isDigit b = false := fun b hb => by
      rcases hstop b hb with rfl | rfl <;> rfl
    have hd := hx.port d rfl
    show lexRest (58 :: (d ++ (part 47 path ++ part 63 query))) = _
    rw [lexRest, head?_cons, if_pos rfl, tail_cons, takeWhile_append hd hnot,
      dropWhile_append hd hnot]
    exact lexPath_text (some d) hx.path

theorem of_lexPath (h : lexPath port r = some x) :
    r = part 47 x.path ++ part 63 x.query ∧ x.port = port ∧ ∀ p ∈ x.path, ∀ b ∈ p, b ≠ 63 := by
  refine ⟨?_, port_of_lexPath h, ?_⟩ <;>
    rcases lexPath_cases port r with ⟨rfl, hlex⟩ | ⟨q, rfl, hlex⟩ | ⟨q, rfl, hlex⟩ |
      ⟨-, -, -, hlex⟩ <;> rw [hlex] at h <;> cases h
  · rfl
  · have hsplit := takeWhile_append_dropWhile (p := (· != (63 : UInt8))) (l := q)
    cases hd : q.dropWhile (· != 63) with
    | nil =>
      rw [hd, append_nil] at hsplit
      rw [hsplit]
      exact (append_nil _).symm
    | cons c d =>
      obtain rfl : c = 63 := by simpa using not_of_dropWhile hd
      rw [hd] at hsplit
      exact congrArg (47 :: ·) hsplit.symm
  · rfl
  · rintro p hp
    cases hp
  · rintro p hp b hb
    cases hp
    simpa using mem_takeWhile_imp hb
  · rintro p hp
    cases hp

theorem of_lexRest (h : lexRest r = some x) : r = x.text ∧ x.Shaped := by
  unfold lexRest at h
  split at h
  · next hhead =>
    obtain ⟨q, rfl⟩ := head?_eq_some_iff.mp hhead
    obtain ⟨heq, hport, hpath⟩ := of_lexPath h
    refine ⟨?_, fun d hd b hb => ?_, hpath⟩
    · rw [Rest.text, hport, ← heq]
      exact congrArg (58 :: ·) takeWhile_append_dropWhile.symm
    · rw [hport] at hd
      cases hd
      exact mem_takeWhile_imp hb
  · obtain ⟨heq, hport, hpath⟩ := of_lexPath h
    refine ⟨?_, fun d hd => ?_, hpath⟩
    · rw [Rest.text, hport, ← heq]
      rfl
    · rw [hport] at hd
      cases hd

end Texts

section Recomposition

variable {s a t r : List UInt8} {u : Uri}

theorem lex_text (hu : u.WellFormed) (hserver : u.server = some (a, y)) :
    u.text.head? ≠ some 47 ∧ lexScheme u.text = some (a, y.text ++ u.toRest.text) ∧
      lexHost (y.text ++ u.toRest.text) = some (y, u.toRest.text) := by
  obtain ⟨⟨hall, b, hb, hletter⟩, hy⟩ := hu.server _ hserver
  have htext : u.text = a ++ (bytes "://" ++ (y.text ++ u.toRest.text)) := by
    rw [Uri.text, hserver, Option.elim_some, append_assoc, append_assoc]
  have hscheme : ∀ b ∈ a, b ≠ 58 := fun b hb =>
    all_iff_forall_prop.mp (by decide +kernel : schemeBytes.all (· ≠ 58)) b (hall b hb)
  refine ⟨?_, by rw [htext, lexScheme_text hscheme], lexHost_text hy (head?_rest u.toRest)⟩
  obtain ⟨a', rfl⟩ := head?_eq_some_iff.mp hb
  rw [htext, cons_append, head?_cons, Ne, Option.some_inj]
  exact all_iff_forall_prop.mp (by decide +kernel : letters.all (· ≠ 47)) b hletter

theorem wellFormed_of_lex {x : Rest} (ha : lexScheme s = some (a, t)) (hy : lexHost t = some (y, r))
    (hx : lexRest r = some x) (hproper : IsScheme a ∧ y.Proper)
    (hport : ∀ d ∈ x.port, value d ≤ 65535) :
    (Uri.mk x (some (a, y))).WellFormed ∧ (Uri.mk x (some (a, y))).text = s := by
  refine ⟨⟨fun p hp => ?_, nofun, (of_lexRest hx).2, hport⟩, ?_⟩
  · cases hp
    exact hproper
  · rw [Uri.text, Option.elim_some, append_assoc, append_assoc, ← (of_lexRest hx).1,
      ← eq_of_lexHost hy, ← eq_of_lexScheme ha]

theorem ofInt_toNat (n : UInt16) : UInt16.ofInt n.toNat = n := by
  have hlt := n.toNat_lt
  have hmod : ((n.toNat : Int) % 2 ^ 16).toNat = n.toNat := by omega
  rw [UInt16.ofInt, hmod, UInt16.ofNat_toNat]

theorem proper_lower (hy : y.Proper) : y.lower.Proper ∧ y.lower.lower = y.lower := by
  have hidem : tolower ∘ tolower = tolower := by
    funext b
    have hlt := b.toNat_lt
    simp only [Function.comp_apply, tolower]
    split
    · next h =>
      have hsum : (b + 32).toNat = b.toNat + 32 := by
        rw [UInt8.toNat_add, show (32 : UInt8).toNat = 32 from rfl]
        omega
      exact if_neg (by omega)
    · rfl
  cases y with
  | name n =>
    refine ⟨⟨mt map_eq_nil_iff.mp hy.1, fun b hb => ?_⟩, ?_⟩
    · obtain ⟨c, hc, rfl⟩ := mem_map.mp hb
      exact tolower_mem.1 c (hy.2 c hc)
    · rw [Host.lower, Host.lower, map_map, hidem]
  | address a =>
    refine ⟨⟨mt map_eq_nil_iff.mp hy.1, fun b hb => ?_⟩, ?_⟩
    · obtain ⟨c, hc, rfl⟩ := mem_map.mp hb
      exact tolower_mem.2 c (hy.2 c hc)
    · rw [Host.lower, Host.lower, map_map, hidem]

/-- **What is put together from the parts of a URI has the same parts.** -/
theorem exists_together (hu : u.WellFormed) : ∃ v : Uri, v.WellFormed ∧
    v.text = together (u.server.map Prod.fst) u.parts ∧ v.parts = u.parts := by
  have hpath : ∀ p ∈ some (u.path.getD []), ∀ b ∈ p, b ≠ 63 := by
    rintro p hp
    cases hp
    cases hpath : u.path with
    | none => exact fun b hb => absurd hb not_mem_nil
    | some p => exact hu.shaped.path p hpath
  have hquery : part 63 (if u.query.getD [] = [] then none else some (u.query.getD [])) =
      if u.query.getD [] = [] then [] else 63 :: u.query.getD [] := by
    split <;> rfl
  have hquery' : (if u.query.getD [] = [] then none else some (u.query.getD [])).getD [] =
      u.query.getD [] := by
    split
    · next h => exact h.symm
    · rfl
  cases hserver : u.server with
  | none =>
    refine ⟨⟨⟨none, some (u.path.getD []),
        if u.query.getD [] = [] then none else some (u.query.getD [])⟩, none⟩,
      ⟨nofun, fun _ => ⟨rfl, Option.some_ne_none _⟩,
        ⟨nofun, hpath⟩, nofun⟩, ?_, ?_⟩
    · exact congrArg (47 :: u.path.getD [] ++ ·) hquery
    · rw [Uri.parts, Uri.parts, hquery', hserver, Rest.portOf, Rest.portOf, (hu.absolute hserver).1]
      rfl
  | some s =>
    have hport : value (portText u.portOf.toNat) = u.portOf.toNat :=
      MicroDia.value_portText u.portOf.toNat_lt
    have hlower := proper_lower (hu.server s hserver).2
    refine ⟨⟨⟨some (portText u.portOf.toNat), some (u.path.getD []),
        if u.query.getD [] = [] then none else some (u.query.getD [])⟩, some (s.1, s.2.lower)⟩,
      ⟨fun s' hs => ?_, nofun, ⟨fun d hd b hb => ?_, hpath⟩, fun d hd => ?_⟩,
      ?_, ?_⟩
    · cases hs
      exact ⟨(hu.server s hserver).1, hlower.1⟩
    · cases hd
      exact MicroDia.isDigit_of_mem_portText hb
    · cases hd
      have hlt := u.portOf.toNat_lt
      omega
    · rw [Uri.text, Rest.text, hquery, together, Option.map_some, Uri.parts, hserver]
      simp only [Option.elim_some, part, append_assoc, cons_append]
    · rw [Uri.parts, Uri.parts, hquery', hserver, Option.elim_some, Option.elim_some, hlower.2,
        Rest.portOf, Option.getD_some, if_neg (MicroDia.portText_ne_nil _), hport, ofInt_toNat]
      rfl

theorem head?_absolute (hu : u.WellFormed) (hserver : u.server = none) :
    u.text.head? = some 47 := by
  obtain ⟨hport, hpath⟩ := hu.absolute hserver
  obtain ⟨p, hp⟩ := Option.ne_none_iff_exists'.mp hpath
  rw [Uri.text, Rest.text, hserver, hport, hp]
  rfl

theorem eq_of_text (hu : u.WellFormed) (htext : u.text = s) (hs : s.head? ≠ some 47)
    (ha : lexScheme s = some (a, t)) (hy : lexHost t = some (y, r)) :
    u.server = some (a, y) ∧ lexRest r = some u.toRest := by
  subst htext
  cases hserver : u.server with
  | none => exact absurd (head?_absolute hu hserver) hs
  | some x =>
    obtain ⟨-, hscheme, hhost⟩ := lex_text hu (a := x.1) (y := x.2) hserver
    rw [hscheme] at ha
    cases ha
    rw [hhost] at hy
    cases hy
    exact ⟨rfl, lexRest_text hu.shaped⟩

theorem proper_first (hy : y.Proper) : y.first ≠ some 63 := by
  cases y with
  | name n =>
    exact fun h => absurd (nameBytes_host 63 (hy.2 63 (mem_of_head? h))).1 Bool.false_ne_true
  | address a =>
    exact fun h => (addressBytes_host 63 (hy.2 63 (mem_of_head? h))).2 rfl

section Lexed

variable (h0 : (0 : UInt8) ∉ s) (hs : s.head? ≠ some 47) (ha : lexScheme s = some (a, t))
  (hy : lexHost t = some (y, r))
include h0 hs ha hy

theorem split_lexed (m : List UInt8) : ∃ p b, p.head? = some b ∧ (b = 63 ↔ y.first = some 63) ∧
    dIa_split_uri (s ++ m) s.length =
      splitPort ⟨y.delivered, coapDefaultPort, [], []⟩ p (r ++ m) r.length := by
  obtain ⟨p, b, hp, hb, hsplit⟩ := splitHost_some hy ⟨[], coapDefaultPort, [], []⟩ m
  exact ⟨p, b, hp, hb, (split_scheme ha h0 hs m).trans hsplit⟩

theorem recomposes_of_refused (hlex : ∀ x ∈ lexRest r, x.queryOnly = true) : Recomposes s ↔
    (∀ u : Uri, u.WellFormed → u.text ≠ s) ∧ (r.head? = some 58 ∨ y.first ≠ some 63) := by
  have hrefused : r.head? = some 58 ∨ y.first ≠ some 63 → ∀ m, ∃ uri,
      dIa_split_uri (s ++ m) s.length = some (-1, uri) := fun h m => by
    obtain ⟨p, b, hp, hb, hsplit⟩ := split_lexed h0 hs ha hy m
    rw [hsplit]
    exact splitPort_refuses hlex hp (h.imp_right (mt hb.mp)) m
  constructor
  · intro h
    have hno : r.head? = some 58 ∨ y.first ≠ some 63 → ∀ u : Uri, u.WellFormed → u.text ≠ s := by
      intro hcond u hu htext
      obtain ⟨uri, hneg⟩ := hrefused hcond (0 :: [])
      have hpos := (h.delivers u hu htext []).1
      rw [hneg] at hpos
      cases hpos
    have hcond : r.head? = some 58 ∨ y.first ≠ some 63 := by
      by_contra hnot
      obtain ⟨hcolon, hfirst⟩ := not_or.mp hnot
      have hno' : ∀ u : Uri, u.WellFormed → u.text ≠ s := fun u hu htext =>
        hfirst (proper_first (hu.server _ (eq_of_text hu htext hs ha hy).1).2)
      obtain ⟨p, b, hp, hb, hsplit⟩ := split_lexed h0 hs ha hy [0]
      rw [hb.mpr (not_not.mp hfirst)] at hp
      obtain ⟨res, uri, hres, hne⟩ := h.refuses hno' []
      obtain ⟨uri', hzero⟩ := splitPort_misled hlex hp hcolon [0]
      rw [hsplit, hzero] at hres
      cases hres
      exact hne rfl
    exact ⟨hno hcond, hcond⟩
  · rintro ⟨hno, hcond⟩
    refine ⟨?_, fun u hu htext => absurd htext (hno u hu), fun _ m => ?_⟩
    · obtain ⟨uri, hneg⟩ := hrefused hcond []
      rw [append_nil] at hneg
      rw [hneg]
      rfl
    · obtain ⟨uri, hneg⟩ := hrefused hcond (0 :: m)
      exact ⟨-1, uri, hneg, by decide⟩

theorem recomposes_of_accepted {x : Rest} (hx : lexRest r = some x) (hq : x.queryOnly = false) :
    Recomposes s ↔ (IsScheme a ∧ y.Proper) ∧ y.delivered = y.lower.text ∧
      ∀ d ∈ x.port, value d ≤ 65535 := by
  have hrun : ∀ m, dIa_split_uri (s ++ m) s.length =
      some (0, ⟨y.delivered, x.portOf, x.path.getD [], x.query.getD []⟩) := fun m => by
    obtain ⟨p, b, -, -, hsplit⟩ := split_lexed h0 hs ha hy m
    rw [hsplit, splitPort_accepts hx hq]
  have hparts : ∀ u : Uri, u.WellFormed → u.text = s → u.toRest = x ∧ u.server = some (a, y) :=
    fun u hu htext => by
      obtain ⟨hserver, hrest⟩ := eq_of_text hu htext hs ha hy
      exact ⟨Option.some.inj (hrest.symm.trans hx), hserver⟩
  constructor
  · intro h
    by_cases hno : ∀ u : Uri, u.WellFormed → u.text ≠ s
    · obtain ⟨res, uri, hres, hne⟩ := h.refuses hno []
      rw [hrun] at hres
      cases hres
      exact absurd rfl hne
    · push Not at hno
      obtain ⟨u, hu, htext⟩ := hno
      obtain ⟨hrest, hserver⟩ := hparts u hu htext
      have hsame := (h.delivers u hu htext []).1
      rw [hrun, Uri.parts, hserver] at hsame
      exact ⟨hu.server _ hserver, congrArg (fun o => (o.2 : CoapUri).host) (Option.some.inj hsame),
        hrest ▸ hu.port⟩
  · rintro ⟨hproper, hlower, hport⟩
    obtain ⟨hwell, htext⟩ := wellFormed_of_lex ha hy hx hproper hport
    refine ⟨?_, fun u hu hu' m => ⟨?_, exists_together hu⟩, fun hno => absurd htext (hno _ hwell)⟩
    · have hinside := hrun []
      rw [append_nil] at hinside
      rw [hinside]
      rfl
    · obtain ⟨hrest, hserver⟩ := hparts u hu hu'
      rw [hrun, hlower, Uri.parts, hserver, hrest]
      rfl

end Lexed

theorem recomposes_noHost (h0 : (0 : UInt8) ∉ s) (hs : s.head? ≠ some 47)
    (ha : lexScheme s = some (a, t)) (hy : lexHost t = none) : Recomposes s := by
  have hrun : ∀ m, dIa_split_uri (s ++ m) s.length = some (-3, ⟨[], coapDefaultPort, [], []⟩) :=
    fun m => (split_scheme ha h0 hs m).trans (splitHost_none hy _ m)
  refine ⟨?_, fun u hu htext => ?_, fun _ m => ⟨_, _, hrun (0 :: m), by decide⟩⟩
  · have hinside := hrun []
    rw [append_nil] at hinside
    rw [hinside]
    rfl
  · obtain ⟨x, hx, -⟩ | hnone : (∃ x, u.server = some x ∧ True) ∨ u.server = none := by
      cases u.server with
      | none => exact .inr rfl
      | some x => exact .inl ⟨x, rfl, trivial⟩
    · obtain ⟨-, hscheme, hhost⟩ := lex_text hu (a := x.1) (y := x.2) hx
      rw [htext, ha] at hscheme
      cases hscheme
      rw [hy] at hhost
      cases hhost
    · exact absurd (head?_absolute hu hnone) (htext ▸ hs)

theorem recomposes_absolute (hs : s.head? = some 47) : Recomposes s := by
  obtain ⟨r, rfl⟩ := head?_eq_some_iff.mp hs
  rcases lexPath_cases none (47 :: r) with ⟨hnil, -⟩ | ⟨q, hq, hlex⟩ | ⟨q, hq, -⟩ | ⟨-, h47, -⟩
  · cases hnil
  · cases hq
    have hrun := split_absolute r
    obtain ⟨htext, hport, hpath⟩ := of_lexPath hlex
    refine ⟨?_, fun u hu hu' m => ⟨?_, exists_together hu⟩, fun hno => ?_⟩
    · have hinside := hrun []
      rw [append_nil] at hinside
      rw [hinside]
      rfl
    · cases hserver : u.server with
      | none =>
        have hrest : lexPath none (47 :: r) = some u.toRest := by
          rw [← hu', Uri.text, Rest.text, hserver, (hu.absolute hserver).1]
          refine (lexPath_text none hu.shaped.path).trans ?_
          rw [← (hu.absolute hserver).1]
        rw [hlex] at hrest
        rw [hrun, Uri.parts, hserver, ← Option.some.inj hrest]
        rfl
      | some x => exact absurd (hu' ▸ hs) (lex_text hu (a := x.1) (y := x.2) hserver).1
    · refine absurd ?_ (hno ⟨_, none⟩ ⟨nofun,
        fun _ => ⟨rfl, Option.some_ne_none _⟩, ⟨fun d hd => (by cases hd), hpath⟩, nofun⟩)
      exact htext.symm
  · cases hq
  · exact absurd rfl h47

/-- **The texts that the function serves.** -/
theorem recomposes_iff (h0 : (0 : UInt8) ∉ s) : Recomposes s ↔ Serves s := by
  by_cases hs : s.head? = some 47
  · exact iff_of_true (recomposes_absolute hs) (.inl hs)
  rw [Serves, or_iff_right hs]
  cases ha : lexScheme s with
  | none =>
    refine iff_of_false (fun h => ?_) (fun ⟨x, hx, _⟩ => (by cases hx))
    have hinside := h.inside
    rw [split_noScheme ha h0 hs] at hinside
    cases hinside
  | some x =>
    obtain ⟨a, t⟩ := x
    have hserves : (∃ x ∈ some (a, t), ∀ y ∈ lexHost x.2, RestServed x.1 y.1 y.2) ↔
        ∀ y ∈ lexHost t, RestServed a y.1 y.2 :=
      ⟨fun ⟨x, hx, h⟩ => (by cases hx; exact h), fun h => ⟨_, rfl, h⟩⟩
    rw [hserves]
    cases hy : lexHost t with
    | none => exact iff_of_true (recomposes_noHost h0 hs ha hy) fun y hy => (by cases hy)
    | some y =>
      obtain ⟨y, r⟩ := y
      have hone : (∀ y' ∈ some (y, r), RestServed a y'.1 y'.2) ↔ RestServed a y r :=
        ⟨fun h => h _ rfl, fun h y' hy' => (by cases hy'; exact h)⟩
      rw [hone, RestServed]
      cases hx : lexRest r with
      | none =>
        rw [recomposes_of_refused h0 hs ha hy fun x hx' => (by rw [hx] at hx'; cases hx')]
        refine and_iff_right fun u hu htext => ?_
        rw [(eq_of_text hu htext hs ha hy).2] at hx
        cases hx
      | some x =>
        show _ ↔ if x.queryOnly then _ else _
        split
        · next hq =>
          rw [recomposes_of_refused h0 hs ha hy fun x' hx' => (by
            rw [hx] at hx'
            cases hx'
            exact hq)]
          have hport : x.port = none := by
            cases hport : x.port with
            | none => rfl
            | some d =>
              rw [Rest.queryOnly, hport] at hq
              cases hq
          have hcolon : r.head? ≠ some 58 := fun hcolon => by
            rw [lexRest, if_pos hcolon] at hx
            rw [port_of_lexPath hx] at hport
            cases hport
          refine and_congr ⟨fun hno hproper => ?_, fun hproper u hu htext => ?_⟩
            (or_iff_right hcolon)
          · have hwell := wellFormed_of_lex ha hy hx hproper fun d hd => (by
              rw [hport] at hd
              cases hd)
            exact hno _ hwell.1 hwell.2
          · exact hproper (hu.server _ (eq_of_text hu htext hs ha hy).1)
        · next hq => exact recomposes_of_accepted h0 hs ha hy hx (Bool.eq_false_iff.mpr hq)

theorem recomposes_iff_port :
    Recomposes (bytes "coap://h:80/x?q") ↔ Serves (bytes "coap://h:80/x?q") :=
  recomposes_iff (by decide +kernel)

/-- A query right behind the host is refused. -/
theorem not_recomposes_query : ¬Recomposes (bytes "coap://h?q") := fun h => by
  have hwell : (Uri.mk ⟨none, none, some [113]⟩ (some (bytes "coap", .name [104]))).WellFormed := by
    refine ⟨fun x hx => ?_, fun hx => (by cases hx), ⟨fun d hd => (by cases hd),
      fun p hp => (by cases hp)⟩, fun d hd => (by cases hd)⟩
    cases hx
    exact ⟨⟨by decide +kernel, 99, by decide +kernel, by decide +kernel⟩, by decide +kernel,
      by decide +kernel⟩
  have hrun := (h.delivers _ hwell (by decide +kernel) []).1
  exact absurd hrun (by decide +kernel)

end Recomposition

end Ong.Dia.SplitUri
