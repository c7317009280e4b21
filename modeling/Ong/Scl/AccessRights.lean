import Mathlib.Data.List.Infix
import Ong.M2M.Basic

/-!
# Access rights

A list of permissions, each for the holders it names and with flags, decides whether a requesting
entity may do what a flag stands for.  A holder is everybody, an entity by its URI, a domain, or an
application or SCL by the last two segments of its URI.
-/

namespace Ong.Scl

open Ong.M2M

/-! ## Strings -/

/-- The characters of a Java string. -/
abbrev JString := List Char

/-- `Character.toUpperCase`, up to the characters that no character of ASCII is compared equal
to. -/
def toUpperCase (c : Char) : Char :=
  if c = 'ı' then 'I' else if c = 'ſ' then 'S' else c.toUpper

/-- `Character.toLowerCase`, likewise; the Kelvin sign is the last of these characters. -/
def toLowerCase (c : Char) : Char :=
  if c = 'İ' then 'i' else if c = '\u212a' then 'k' else c.toLower

/-- Two characters are the same, ignoring case. -/
def sameLetter (a b : Char) : Bool :=
  a = b || toUpperCase a = toUpperCase b ||
    toLowerCase (toUpperCase a) = toLowerCase (toUpperCase b)

def lastIndexOf (c : Char) (s : JString) : Nat → Option Nat
  | 0 => none
  | n + 1 => if s[n]? = some c then some n else lastIndexOf c s n

def regionMatches (s : JString) (toffset : Nat) (other : JString) (len : Nat) : Bool :=
  toffset + len ≤ s.length && len ≤ other.length &&
    (((s.drop toffset).take len).zip (other.take len)).all fun p => sameLetter p.1 p.2

/-- The parts of a `java.net.URI` that are read here. -/
structure UriParts where
  path : Option JString
  host : Option JString

/-- What a check of rights ends with, other than a result: an `M2MException` with its status, or a
`RuntimeException`. -/
inductive Thrown
  | m2m (status : StatusCode)
  | nullPointer
  | illegalArgument
  deriving DecidableEq

/-! ## Permissions -/

/-- `m2m:permissionHolders`, with the lists of the elements that are present. -/
structure PermissionHolders where
  all : Bool
  holderRefs : Option (List JString)
  domains : Option (List JString)
  applicationIDs : Option (List JString)
  sclIDs : Option (List JString)
  deriving DecidableEq

/-- `m2m:permission` -/
structure Permission where
  permissionHolders : Option PermissionHolders
  permissionFlags : Option (List JString)
  deriving DecidableEq

/-- The URI of a requesting entity: its text and its host. -/
structure RequestingEntity where
  text : JString
  host : Option JString

/-- What the checks take from outside: the parser of `java.net.URI`, none when it throws an
`URISyntaxException`; `URLDecoder.decode`, none when it throws an `IllegalArgumentException`; and
the URI of the local sclBase that `createLocalUri` makes for a requesting entity. -/
structure Platform where
  parseUri : JString → Option UriParts
  decode : JString → Option JString
  localSclBase : RequestingEntity → JString

namespace SclResource

variable (env : Platform)

def resApplications : JString := ['a', 'p', 'p', 'l', 'i', 'c', 'a', 't', 'i', 'o', 'n', 's']

def resScls : JString := ['s', 'c', 'l', 's']

def checkHolderRefs (holders : PermissionHolders) (requestingEntity : JString) : Bool :=
  match holders.holderRefs with
  | none => false
  | some holderRefs => requestingEntity ∈ holderRefs

/-- The loop of `checkDomains`. -/
def domainLoop (requestingEntity : RequestingEntity) : List JString → Except Thrown Bool
  | [] => .ok false
  | domain :: domains =>
    match env.parseUri domain with
    | none => domainLoop requestingEntity domains
    | some domainUri =>
      if domainUri.path.isSome && domain.isPrefixOf requestingEntity.text then .ok true
      else
        match requestingEntity.host, domainUri.host with
        | none, _ => domainLoop requestingEntity domains
        | some _, none => .error .nullPointer
        | some host, some domainHost =>
          if domainHost.isSuffixOf host then .ok true else domainLoop requestingEntity domains

def checkDomains (holders : PermissionHolders) (requestingEntity : RequestingEntity) :
    Except Thrown Bool :=
  match holders.domains with
  | none => .ok false
  | some domains => domainLoop env requestingEntity domains

/-- The last segment, decoded, looked up in a list of ids. -/
def checkID (requestingEntity : JString) (slashIndex : Nat) (ids : Option (List JString)) :
    Except Thrown Bool :=
  let last := if requestingEntity.getLast? = some '/'
    then (requestingEntity.drop (slashIndex + 1)).dropLast
    else requestingEntity.drop (slashIndex + 1)
  match env.decode last with
  | none => .error .illegalArgument
  | some id =>
    match ids with
    | none => .ok false
    | some ids => .ok (id ∈ ids)

/-- What a found segment is looked up in. -/
def lookup (last : JString) (ids : Option (List JString)) : Except Thrown Bool :=
  match env.decode last with
  | none => .error .illegalArgument
  | some id =>
    match ids with
    | none => .ok false
    | some ids => .ok (id ∈ ids)

def checkAppIDorSclID (holders : PermissionHolders) (requestingEntity : JString) :
    Except Thrown Bool :=
  match lastIndexOf '/' requestingEntity (requestingEntity.length - 1) with
  | none => .ok false
  | some slashIndex =>
    match lastIndexOf '/' requestingEntity slashIndex with
    | none => .ok false
    | some slashIndex2 =>
      let len := slashIndex - slashIndex2 - 1
      if regionMatches requestingEntity (slashIndex2 + 1) resApplications len then
        checkID env requestingEntity slashIndex holders.applicationIDs
      else if regionMatches requestingEntity (slashIndex2 + 1) resScls len then
        checkID env requestingEntity slashIndex holders.sclIDs
      else .ok false

/-- The four checks of the holders of a permission, up to the first that matches. -/
def checkHolders (requestingEntity : RequestingEntity) : Option PermissionHolders →
    Except Thrown Bool
  | none => .ok false
  | some holders =>
    if holders.all then .ok true
    else if checkHolderRefs holders requestingEntity.text then .ok true
    else
      match checkDomains env holders requestingEntity with
      | .error e => .error e
      | .ok true => .ok true
      | .ok false => checkAppIDorSclID env holders requestingEntity.text

/-- The loop of `checkPermissions` and what follows it. -/
def permissionLoop (requestingEntity : RequestingEntity) (flag : JString) :
    (discover : Bool) → List Permission → Except Thrown Unit
  | true, [] => .error (.m2m .permissionDenied)
  | false, [] => .error (.m2m .notFound)
  | discover, permission :: permissions =>
    match checkHolders env requestingEntity permission.permissionHolders with
    | .error e => .error e
    | .ok false => permissionLoop requestingEntity flag discover permissions
    | .ok true =>
      match permission.permissionFlags with
      -- no flags: all that can be asked for is permitted
      | none => .ok ()
      | some flags =>
        if flag ∈ flags then .ok ()
        -- some other flag is enough for the requester to know that the resource exists
        else permissionLoop requestingEntity flag (discover || !flags.isEmpty) permissions

def checkPermissions (requestingEntity : RequestingEntity) (flag : JString)
    (permissions : List Permission) : Except Thrown Unit :=
  if env.localSclBase requestingEntity = requestingEntity.text then .ok ()
  else permissionLoop env requestingEntity flag false permissions

end SclResource

end Ong.Scl
